import MirageNode.RelayAuth

/-!
# The ante router

`mirageAnteRouter` (app/app.go) sends a transaction to the standard ante chain or to the
relay chain (app/ante_relay_chain.go). Messages that carry others are unpacked first
(app/ante_nested_msgs.go). `no_relay_bypass` says what an accepted transaction looks like.

The decorators of the Cosmos SDK are parameters, and with them those of the repository that the
result does not need (`SdkChains`). They do not touch the nonce records.
-/

namespace MirageNode

open TaggedFields Fallible List

/-! ## Trimmed strings -/

/-- The white space of `unicode.IsSpace`, encoded. -/
def spaces : List Bytes :=
  [[0x09], [0x0a], [0x0b], [0x0c], [0x0d], [0x20], [0xc2, 0x85], [0xc2, 0xa0], [0xe1, 0x9a, 0x80],
    [0xe2, 0x80, 0xa8], [0xe2, 0x80, 0xa9], [0xe2, 0x80, 0xaf], [0xe2, 0x81, 0x9f],
    [0xe3, 0x80, 0x80]] ++ (List.range 11).map fun n => [0xe2, 0x80, 0x80 + n.toUInt8]

/-- Drops the encodings that a byte string starts with, at most as many as there is fuel. -/
def dropLeading (encodings : List Bytes) : ℕ → Bytes → Bytes
  | 0, b => b
  | fuel + 1, b => match encodings.find? fun e => e.isPrefixOf b with
    | some e => dropLeading encodings fuel (b.drop e.length)
    | none => b

theorem dropLeading_length_le (encodings : List Bytes) (fuel : ℕ) (b : Bytes) :
    (dropLeading encodings fuel b).length ≤ b.length := by
  induction fuel generalizing b with
  | zero => exact le_rfl
  | succ fuel ih =>
    rw [dropLeading]
    split
    next e _ => exact (ih _).trans (drop_sublist e.length b).length_le
    next => exact le_rfl

/-- What `strings.TrimSpace` leaves of a byte string: a rune at the end is found by its encoding
read backwards. -/
def trimBytes (b : Bytes) : Bytes :=
  (dropLeading (spaces.map List.reverse) b.length
    (dropLeading spaces b.length b).reverse).reverse

theorem trimBytes_length_le (b : Bytes) : (trimBytes b).length ≤ b.length := by
  have hleft := dropLeading_length_le spaces b.length b
  have hright := dropLeading_length_le (spaces.map List.reverse) b.length
    (dropLeading spaces b.length b).reverse
  rw [length_reverse] at hright
  rw [trimBytes, length_reverse]
  exact hright.trans hleft

/-- `strings.TrimSpace`. -/
def GoString.trimSpace (s : GoString) : GoString :=
  ⟨trimBytes s.data, (trimBytes_length_le s.data).trans_lt s.fits⟩

/-- The envelope parameters. The module address is in bech32, without white space around it. -/
structure AnteEnv extends RelayCrypto where
  gov_trimmed : govAuthority.trimSpace = govAuthority

/-! ## Messages -/

/-- A message as the router tells them apart. The authority is what `GetAuthority`
returns, where there is such a method. -/
inductive Msg where
  | relay (m : RelayMessage.OnChain)
  | bridge (url : String)
  | retired (url : String) (authority : Option GoString)
  | beginRedelegate
  /-- `MsgDelegate`, `MsgUndelegate` and `MsgCancelUnbondingDelegation`, with the
  addresses that parse. -/
  | delegation (url : String) (delegator validator : Option Bytes)
  | plain (url : String) (authority : Option GoString)
  /-- A `nestedMsgCarrier`. -/
  | carrier (url : String) (authority : Option GoString) (inner : List Msg)
  /-- A `nestedMsgCarrier` whose `GetMessages` fails. -/
  | brokenCarrier (url : String) (authority : Option GoString) (err : String)

namespace Msg

/-- `sdk.MsgTypeURL`. -/
def url : Msg → String
  | relay m => "/mirage.core.v1." ++ m.type.name
  | bridge u => u
  | retired u _ => u
  | beginRedelegate => "/cosmos.staking.v1beta1.MsgBeginRedelegate"
  | delegation u _ _ => u
  | plain u _ => u
  | carrier u _ _ => u
  | brokenCarrier u _ _ => u

def authority : Msg → Option GoString
  | relay m => some m.env.authority
  | retired _ a => a
  | plain _ a => a
  | carrier _ a _ => a
  | brokenCarrier _ a _ => a
  | bridge _ => none
  | beginRedelegate => none
  | delegation _ _ _ => none

/-- `isRelayMessage`. -/
def isRelay : Msg → Bool
  | relay _ => true
  | _ => false

def isPost : Msg → Bool
  | relay m => m.type = .post
  | _ => false

/-- The type assertion to `nestedMsgCarrier` and its `GetMessages`. -/
def getMessages : Msg → Option (Except String (List Msg))
  | carrier _ _ inner => some (.ok inner)
  | brokenCarrier _ _ err => some (.error err)
  | _ => none

end Msg

inductive AnteError where
  | nestingTooDeep
  | cannotInspect (url err : String)
  | relayNested
  | delegationDisabled
  | bridgeRemoved
  | retiredType (url : String)
  | mixedRelay
  | govAuthority
  | tooManyPosts
  | unsupportedRelay (url : String)
  | envelope (err : EnvelopeError)
  | sdk (err : String)

def maxMsgNestingDepth : ℕ := 4

/-! ## Unpacking -/

/-- The body of the loop of `nestedMsgs`, with the recursive call as an argument. -/
def collectInner (nested : List Msg → Except AnteError (List Msg)) (out : List Msg) (m : Msg) :
    Except AnteError (List Msg) :=
  match m.getMessages with
  | none => .ok out
  | some (.error err) => .error (.cannotInspect m.url err)
  | some (.ok inner) => do
    let deeper ← nested inner
    return out ++ inner ++ deeper

/-- `nestedMsgs`. The first argument is how many levels may still be opened, so that
depth 0 of the source is `maxMsgNestingDepth + 1`. -/
def nestedMsgs : ℕ → List Msg → Except AnteError (List Msg)
  | 0, _ => .error .nestingTooDeep
  | room + 1, msgs => msgs.foldlM (collectInner (nestedMsgs room)) []

def transitiveMsgs (tx : List Msg) : Except AnteError (List Msg) := do
  let nested ← nestedMsgs (maxMsgNestingDepth + 1) tx
  return tx ++ nested

def rejectDelegatorStakingMsgs (msgs : List Msg) : Except AnteError Unit :=
  msgs.forM fun m =>
    match m with
    | .beginRedelegate => .error .delegationDisabled
    | .delegation _ delegator validator =>
      failIf (delegator = none ∨ validator = none ∨ delegator ≠ validator) .delegationDisabled
    | _ => .ok ()

/-! ## Decorators -/

/-- A message whose authority, trimmed, is the governance module. -/
def AnteEnv.namesGov (env : AnteEnv) (m : Msg) : Bool :=
  match m.authority with
  | some a => a.trimSpace = env.govAuthority
  | none => false

def govAuthorityDecorator (env : AnteEnv) (tx : List Msg) : Except AnteError Unit := do
  let msgs ← transitiveMsgs tx
  failIf (msgs.any env.namesGov) .govAuthority

def retiredMsgDecorator (tx : List Msg) : Except AnteError Unit := do
  let msgs ← transitiveMsgs tx
  msgs.forM fun m =>
    match m with
    | .retired url _ => .error (.retiredType url)
    | _ => .ok ()

def onePostPerTxDecorator (tx : List Msg) : Except AnteError Unit := do
  let msgs ← transitiveMsgs tx
  failIf ((msgs.filter Msg.isPost).length > 1) .tooManyPosts

/-- `RelaySigDecorator` on the messages of a transaction. -/
def relaySigDecorator (env : AnteEnv) (blockTime : ℤ) (maxAge : UInt64) (tx : List Msg)
    (s : NonceStore) : Except AnteError NonceStore :=
  tx.foldlM (fun s m =>
    match m with
    | .relay r => (authEnvelope env.toRelayCrypto blockTime maxAge s r).mapError .envelope
    | m => .error (.unsupportedRelay m.url)) s

/-- The decorators that are not modelled, acting on the state they may change: those of the SDK,
and the repository's own `EnsureAccountsDecorator`, `LoggingDecorator` and `PowDecorator`. -/
structure SdkChains (σ : Type) where
  /-- `authante.NewAnteHandler`. -/
  std : List Msg → σ → Except AnteError σ
  /-- `SetUpContextDecorator` and `ValidateBasicDecorator`. -/
  relayHead : List Msg → σ → Except AnteError σ
  /-- From `TxTimeoutHeightDecorator`, with `EnsureAccountsDecorator` third, to
  `SigVerificationDecorator`, and then `LoggingDecorator`. -/
  relayMiddle : List Msg → σ → Except AnteError σ
  /-- `DeductFeeDecorator` of the SDK and `PowDecorator`. -/
  relayTail : List Msg → σ → Except AnteError σ

structure AnteState (σ : Type) where
  nonces : NonceStore
  rest : σ

section router

variable {σ : Type} (env : AnteEnv) (sdk : SdkChains σ) (blockTime : ℤ) (maxAge : UInt64)

/-- `relayAnteDecorators`, in their order. -/
def relayAnte (tx : List Msg) (s : AnteState σ) : Except AnteError (AnteState σ) := do
  let rest ← sdk.relayHead tx s.rest
  govAuthorityDecorator env tx
  let rest ← sdk.relayMiddle tx rest
  retiredMsgDecorator tx
  onePostPerTxDecorator tx
  let nonces ← relaySigDecorator env blockTime maxAge tx s.nonces
  let rest ← sdk.relayTail tx rest
  return ⟨nonces, rest⟩

/-- The classification loop: `isRelayTx` and `hasNonRelay`. A message in the name of
governance clears both and ends it. -/
def classify : List Msg → Bool → Bool → Except AnteError (Bool × Bool)
  | [], isRelayTx, hasNonRelay => .ok (isRelayTx, hasNonRelay)
  | m :: ms, isRelayTx, hasNonRelay =>
    match m with
    | .bridge _ => .error .bridgeRemoved
    | .retired url _ => .error (.retiredType url)
    | m =>
      if env.namesGov m then .ok (false, false)
      else if m.isRelay then classify ms true hasNonRelay
      else classify ms isRelayTx true

/-- Which ante chain ran. -/
inductive Route where
  | standard
  | relay
  deriving DecidableEq, Repr

def mirageAnteRouter (tx : List Msg) (s : AnteState σ) :
    Except AnteError (Route × AnteState σ) := do
  let nested ← nestedMsgs (maxMsgNestingDepth + 1) tx
  failIf (nested.any Msg.isRelay) .relayNested
  let allMsgs ← transitiveMsgs tx
  rejectDelegatorStakingMsgs allMsgs
  let (isRelayTx, hasNonRelay) ← classify env allMsgs false false
  failIf (isRelayTx ∧ hasNonRelay) .mixedRelay
  if isRelayTx then do
    let s ← relayAnte env sdk blockTime maxAge tx s
    return (.relay, s)
  else do
    govAuthorityDecorator env tx
    let rest ← sdk.std tx s.rest
    return (.standard, { s with rest })

end router

/-! ## Every message of a transaction -/

mutual

/-- The messages inside a message, to any depth. -/
def Msg.inside : Msg → List Msg
  | .carrier _ _ inner => inner ++ insideAll inner
  | _ => []

def insideAll : List Msg → List Msg
  | [] => []
  | m :: ms => m.inside ++ insideAll ms

end

/-- The messages of a transaction, to any depth. -/
def everyMsg (tx : List Msg) : List Msg := tx ++ insideAll tx

theorem collectInner_eq {nested : List Msg → Except AnteError (List Msg)} {acc out : List Msg}
    {m : Msg} (hnested : ∀ msgs out, nested msgs = .ok out → out = insideAll msgs)
    (h : collectInner nested acc m = .ok out) : out = acc ++ m.inside := by
  cases m with
  | carrier url authority inner =>
    simp only [collectInner, Msg.getMessages, bind_eq_ok, pure_eq_ok] at h
    obtain ⟨deeper, hdeeper, rfl⟩ := h
    rw [hnested inner deeper hdeeper, Msg.inside, append_assoc]
  | brokenCarrier => cases h
  | relay | bridge | retired | beginRedelegate | delegation | plain =>
    cases h
    simp [Msg.inside]

variable {msgs tx : List Msg} {env : AnteEnv}

theorem foldlM_collectInner_eq {nested : List Msg → Except AnteError (List Msg)}
    {acc out : List Msg} (hnested : ∀ msgs out, nested msgs = .ok out → out = insideAll msgs)
    (h : msgs.foldlM (collectInner nested) acc = .ok out) : out = acc ++ insideAll msgs := by
  induction msgs generalizing acc with
  | nil =>
    cases h
    simp [insideAll]
  | cons m msgs ih =>
    rw [foldlM_cons, bind_eq_ok] at h
    obtain ⟨mid, hm, hrest⟩ := h
    rw [ih hrest, collectInner_eq hnested hm, insideAll, append_assoc]

theorem nestedMsgs_eq {room : ℕ} {out : List Msg} (h : nestedMsgs room msgs = .ok out) :
    out = insideAll msgs := by
  induction room generalizing msgs out with
  | zero => cases h
  | succ room ih => exact foldlM_collectInner_eq (fun _ _ => ih) h

theorem transitiveMsgs_eq {all : List Msg} (h : transitiveMsgs tx = .ok all) :
    all = everyMsg tx := by
  simp only [transitiveMsgs, bind_eq_ok, pure_eq_ok] at h
  obtain ⟨nested, hnested, rfl⟩ := h
  rw [everyMsg, nestedMsgs_eq hnested]

theorem govAuthorityDecorator_eq_ok
    (h : govAuthorityDecorator env tx = .ok ()) : ∀ m ∈ everyMsg tx, env.namesGov m = false := by
  simp only [govAuthorityDecorator, bind_eq_ok, failIf_eq_ok, any_eq_true, not_exists,
    not_and, Bool.not_eq_true] at h
  obtain ⟨all, hall, hnone⟩ := h
  rw [← transitiveMsgs_eq hall]
  exact hnone

theorem classify_step {m : Msg} {r n r' n' : Bool}
    (h : classify env (m :: msgs) r n = .ok (r', n')) :
    (env.namesGov m = true ∧ r' = false) ∨ env.namesGov m = false ∧
      classify env msgs (r || m.isRelay) (n || !m.isRelay) = .ok (r', n') := by
  have hbody : (if env.namesGov m then .ok (false, false)
      else if m.isRelay then classify env msgs true n else classify env msgs r true) =
      Except.ok (r', n') := by
    cases m with
    | bridge => cases h
    | retired => cases h
    | _ => exact h
  split at hbody
  · rename_i hgov
    cases hbody
    exact Or.inl ⟨hgov, rfl⟩
  · rename_i hgov
    refine Or.inr ⟨by simpa using hgov, ?_⟩
    split at hbody
    · rename_i hrelay
      simpa [hrelay] using hbody
    · rename_i hrelay
      simpa [hrelay] using hbody

/-- The loop either meets a message in the name of governance, or tells whether there are
relay messages and whether there are others. -/
theorem classify_eq_ok {r n r' n' : Bool} (h : classify env msgs r n = .ok (r', n')) :
    (r' = false ∧ ∃ m ∈ msgs, env.namesGov m = true) ∨
    ((∀ m ∈ msgs, env.namesGov m = false) ∧ r' = (r || msgs.any Msg.isRelay) ∧
      n' = (n || msgs.any fun m => !m.isRelay)) := by
  induction msgs generalizing r n with
  | nil =>
    cases h
    simp
  | cons m msgs ih =>
    rcases classify_step h with ⟨hgov, hr⟩ | ⟨hgov, hrest⟩
    · exact Or.inl ⟨hr, m, mem_cons_self, hgov⟩
    · rcases ih hrest with ⟨hr, m', hm', hgov'⟩ | ⟨hnone, hr, hn⟩
      · exact Or.inl ⟨hr, m', mem_cons_of_mem _ hm', hgov'⟩
      · refine Or.inr ⟨?_, ?_, ?_⟩
        · intro m' hm'
          rcases mem_cons.mp hm' with rfl | hm'
          · exact hgov
          · exact hnone m' hm'
        · rw [hr, any_cons, Bool.or_assoc]
        · rw [hn, any_cons, Bool.or_assoc]

/-! ## What the relay chain has checked -/

/-- The messages are signed, timely, and their nonces are unused and distinct. -/
structure EnvelopesChecked (crypto : RelayCrypto) (blockTime : ℤ) (maxAge : UInt64)
    (s : NonceStore) (msgs : List RelayMessage.OnChain) : Prop where
  signed : ∀ m ∈ msgs, crypto.verifySignature m.env.pubkey m.signBytes m.env.signature = true
  timely : ∀ m ∈ msgs, Timely blockTime maxAge m.env.timestamp
  nonzero : ∀ m ∈ msgs, m.env.nonce ≠ 0
  fresh : ∀ m ∈ msgs, ¬ s.has (crypto.pubHash m.env.pubkey) m.env.nonce
  distinct : msgs.Pairwise fun m m' =>
    (crypto.pubHash m.env.pubkey, m.env.nonce) ≠ (crypto.pubHash m'.env.pubkey, m'.env.nonce)

theorem relaySig_checked {crypto : RelayCrypto} {blockTime : ℤ} {maxAge : UInt64}
    {s s' : NonceStore} {msgs : List RelayMessage.OnChain}
    (huser : ∀ m ∈ msgs, m.env.authority ≠ crypto.govAuthority)
    (h : relaySig crypto blockTime maxAge s msgs = .ok s') :
    EnvelopesChecked crypto blockTime maxAge s msgs := by
  induction msgs generalizing s with
  | nil => exact ⟨by simp, by simp, by simp, by simp, List.Pairwise.nil⟩
  | cons m msgs ih =>
    rw [relaySig, foldlM_cons, bind_eq_ok] at h
    obtain ⟨mid, hm, hrest⟩ := h
    obtain ⟨htimely, hnonce, hfresh, hsig, rfl⟩ := authEnvelope_eq_ok hm (huser m mem_cons_self)
    have hlater := ih (fun m' hm' => huser m' (mem_cons_of_mem _ hm')) hrest
    have hunused : ∀ m' ∈ msgs, (crypto.pubHash m'.env.pubkey, m'.env.nonce) ∉
        insert (crypto.pubHash m.env.pubkey, m.env.nonce) s.used := hlater.fresh
    refine ⟨?_, ?_, ?_, ?_, pairwise_cons.mpr ⟨?_, hlater.distinct⟩⟩
    · exact forall_mem_cons.mpr ⟨hsig, hlater.signed⟩
    · exact forall_mem_cons.mpr ⟨htimely, hlater.timely⟩
    · exact forall_mem_cons.mpr ⟨hnonce, hlater.nonzero⟩
    · refine forall_mem_cons.mpr ⟨hfresh, fun m' hm' hused => hunused m' hm' ?_⟩
      exact Finset.mem_insert_of_mem hused
    · intro m' hm' heq
      exact hunused m' hm' (heq ▸ Finset.mem_insert_self _ _)

theorem relaySigDecorator_eq_ok {blockTime : ℤ} {maxAge : UInt64}
    {s s' : NonceStore} (h : relaySigDecorator env blockTime maxAge tx s = .ok s') :
    ∃ msgs, tx = msgs.map Msg.relay ∧ relaySig env.toRelayCrypto blockTime maxAge s msgs =
      .ok s' := by
  induction tx generalizing s with
  | nil =>
    cases h
    exact ⟨[], rfl, rfl⟩
  | cons m tx ih =>
    rw [relaySigDecorator, foldlM_cons, bind_eq_ok] at h
    obtain ⟨mid, hm, hrest⟩ := h
    obtain ⟨msgs, rfl, hmsgs⟩ := ih hrest
    cases m with
    | relay r =>
      refine ⟨r :: msgs, rfl, ?_⟩
      rw [relaySig, foldlM_cons, mapError_eq_ok.mp hm]
      exact hmsgs
    | _ => cases hm

theorem insideAll_relay (msgs : List RelayMessage.OnChain) :
    insideAll (msgs.map Msg.relay) = [] := by
  induction msgs with
  | nil => rfl
  | cons m msgs ih => simp [insideAll, Msg.inside, ih]

theorem relay_ne_gov {m : RelayMessage.OnChain}
    (h : env.namesGov (.relay m) = false) : m.env.authority ≠ env.govAuthority := by
  intro he
  simp [AnteEnv.namesGov, Msg.authority, he, env.gov_trimmed] at h

theorem namesGov_eq_false {m : Msg} :
    env.namesGov m = false ↔ ∀ a, m.authority = some a → a.trimSpace ≠ env.govAuthority := by
  unfold AnteEnv.namesGov
  split <;> simp_all

theorem onePostPerTxDecorator_eq_ok (h : onePostPerTxDecorator tx = .ok ()) :
    ((everyMsg tx).filter Msg.isPost).length ≤ 1 := by
  simp only [onePostPerTxDecorator, bind_eq_ok, failIf_eq_ok, not_lt, gt_iff_lt] at h
  obtain ⟨all, hall, hle⟩ := h
  rwa [← transitiveMsgs_eq hall]

section router

variable {σ : Type} {env : AnteEnv} {sdk : SdkChains σ} {blockTime : ℤ} {maxAge : UInt64}
  {tx : List Msg} {s s' : AnteState σ}

theorem relayAnte_eq_ok (h : relayAnte env sdk blockTime maxAge tx s = .ok s') :
    ((everyMsg tx).filter Msg.isPost).length ≤ 1 ∧
      relaySigDecorator env blockTime maxAge tx s.nonces = .ok s'.nonces := by
  simp only [relayAnte, bind_eq_ok, pure_eq_ok] at h
  obtain ⟨_, -, _, -, _, -, _, -, _, hpost, nonces, hsig, _, -, rfl⟩ := h
  exact ⟨onePostPerTxDecorator_eq_ok hpost, hsig⟩

/-- The router runs one chain, chosen by the classification of all messages. -/
theorem mirageAnteRouter_eq_ok {route : Route}
    (h : mirageAnteRouter env sdk blockTime maxAge tx s = .ok (route, s')) :
    ∃ isRelayTx hasNonRelay, (insideAll tx).any Msg.isRelay = false ∧
      classify env (everyMsg tx) false false = .ok (isRelayTx, hasNonRelay) ∧
      ¬ (isRelayTx = true ∧ hasNonRelay = true) ∧
      match isRelayTx with
      | false => govAuthorityDecorator env tx = .ok () ∧
          ∃ rest, sdk.std tx s.rest = .ok rest ∧ route = .standard ∧ s' = { s with rest }
      | true => ∃ s₁, relayAnte env sdk blockTime maxAge tx s = .ok s₁ ∧ route = .relay ∧
        s' = s₁ := by
  simp only [mirageAnteRouter, bind_eq_ok, failIf_eq_ok] at h
  obtain ⟨nested, hnested, _, hnone, all, hall, _, -, ⟨isRelayTx, hasNonRelay⟩, hcls, _,
    hmixed, h⟩ := h
  rw [transitiveMsgs_eq hall] at hcls
  rw [nestedMsgs_eq hnested] at hnone
  refine ⟨isRelayTx, hasNonRelay, by simpa using hnone, hcls, hmixed, ?_⟩
  cases isRelayTx with
  | false =>
    simp only [Bool.false_eq_true, if_false, bind_eq_ok, pure_eq_ok, Prod.mk.injEq] at h
    obtain ⟨_, hgov, rest, hstd, rfl, rfl⟩ := h
    exact ⟨hgov, rest, hstd, rfl, rfl⟩
  | true =>
    simp only [if_true, bind_eq_ok, pure_eq_ok, Prod.mk.injEq] at h
    obtain ⟨s₁, hrelay, rfl, rfl⟩ := h
    exact ⟨s₁, hrelay, rfl, rfl⟩

end router

/-- An accepted transaction either holds no relay message at any depth and went through the
standard ante chain, or consists of relay messages at the top level whose envelopes the
relay chain has checked. No message at any depth is in the name of governance, and at most
one is a post. -/
theorem no_relay_bypass {σ : Type} (env : AnteEnv) (sdk : SdkChains σ) (blockTime : ℤ)
    (maxAge : UInt64) (tx : List Msg) (s s' : AnteState σ) (route : Route)
    (h : mirageAnteRouter env sdk blockTime maxAge tx s = .ok (route, s')) :
    ((route = .standard ∧ (∀ m ∈ everyMsg tx, m.isRelay = false) ∧
      sdk.std tx s.rest = .ok s'.rest) ∨
      (route = .relay ∧ everyMsg tx = tx ∧ ∃ msgs, tx = msgs.map Msg.relay ∧
        EnvelopesChecked env.toRelayCrypto blockTime maxAge s.nonces msgs)) ∧
    (∀ m ∈ everyMsg tx, ∀ a, m.authority = some a → a.trimSpace ≠ env.govAuthority) ∧
    ((everyMsg tx).filter Msg.isPost).length ≤ 1 := by
  obtain ⟨isRelayTx, hasNonRelay, hnested, hcls, hmixed, h⟩ := mirageAnteRouter_eq_ok h
  have hgovs : (∀ m ∈ everyMsg tx, env.namesGov m = false) → ∀ m ∈ everyMsg tx, ∀ a,
      m.authority = some a → a.trimSpace ≠ env.govAuthority :=
    fun hnone m hm => namesGov_eq_false.mp (hnone m hm)
  cases isRelayTx with
  | false =>
    obtain ⟨hgov, rest, hstd, rfl, rfl⟩ := h
    -- Nothing in the name of governance, so the loop has seen every message.
    have hnorelay : ∀ m ∈ everyMsg tx, m.isRelay = false := by
      rcases classify_eq_ok hcls with ⟨-, m, hm, hg⟩ | ⟨-, hr, -⟩
      · rw [govAuthorityDecorator_eq_ok hgov m hm] at hg
        cases hg
      · simpa using hr.symm
    refine ⟨Or.inl ⟨rfl, hnorelay, hstd⟩, hgovs (govAuthorityDecorator_eq_ok hgov), ?_⟩
    have hnopost : (everyMsg tx).filter Msg.isPost = [] := by
      rw [filter_eq_nil_iff]
      intro m hm
      have := hnorelay m hm
      cases m <;> simp_all [Msg.isPost, Msg.isRelay]
    rw [hnopost]
    exact Nat.zero_le 1
  | true =>
    obtain ⟨s₁, hrelay, rfl, rfl⟩ := h
    obtain ⟨hnone, -, -⟩ : (∀ m ∈ everyMsg tx, env.namesGov m = false) ∧ _ ∧ _ :=
      (classify_eq_ok hcls).resolve_left fun hl => Bool.noConfusion hl.1
    obtain ⟨hpost, hsig⟩ := relayAnte_eq_ok hrelay
    obtain ⟨msgs, rfl, hmsgs⟩ := relaySigDecorator_eq_ok hsig
    have hevery : everyMsg (msgs.map Msg.relay) = msgs.map Msg.relay := by
      rw [everyMsg, insideAll_relay, append_nil]
    have huser : ∀ m ∈ msgs, m.env.authority ≠ env.govAuthority := by
      intro m hm
      refine relay_ne_gov (hnone (.relay m) ?_)
      rw [hevery]
      exact mem_map_of_mem hm
    exact ⟨Or.inr ⟨rfl, hevery, msgs, rfl, relaySig_checked huser hmsgs⟩, hgovs hnone, hpost⟩

def trustingEnv : AnteEnv := { trustingCrypto with gov_trimmed := by decide }

/-- Decorators that let everything pass. -/
def openSdk : SdkChains Unit where
  std _ s := .ok s
  relayHead _ s := .ok s
  relayMiddle _ s := .ok s
  relayTail _ s := .ok s

/-- The vote of another account. -/
def otherVote : RelayMessage.OnChain :=
  { stampedVote with env := { stampedVote.env with pubkey := ⟨List.replicate 33 3, by decide⟩ } }

/-- A proposal that carries a transfer inside another carrier. -/
def carriedTransfer : Msg :=
  .carrier "/cosmos.gov.v1.MsgSubmitProposal" none
    [.carrier "/cosmos.authz.v1beta1.MsgExec" none [.plain "/cosmos.bank.v1beta1.MsgSend" none]]

/-- Two votes take the relay chain, and a transfer inside two carriers the standard one. -/
theorem no_relay_bypass_routes :
    (∃ s', mirageAnteRouter trustingEnv openSdk (1000 * second) 60
        [.relay stampedVote, .relay otherVote] ⟨⟨∅, ∅⟩, ()⟩ = .ok (.relay, s') ∧
      ∃ msgs, [Msg.relay stampedVote, .relay otherVote] = msgs.map Msg.relay ∧
        EnvelopesChecked trustingEnv.toRelayCrypto (1000 * second) 60 ⟨∅, ∅⟩ msgs) ∧
    ∃ s', mirageAnteRouter trustingEnv openSdk (1000 * second) 60 [carriedTransfer] ⟨⟨∅, ∅⟩, ()⟩ =
        .ok (.standard, s') ∧
      (everyMsg [carriedTransfer]).length = 3 ∧
      ∀ m ∈ everyMsg [carriedTransfer], m.isRelay = false := by
  refine ⟨⟨_, rfl, ?_⟩, _, rfl, rfl, ?_⟩
  · have h := (no_relay_bypass trustingEnv openSdk (1000 * second) 60
      [.relay stampedVote, .relay otherVote] ⟨⟨∅, ∅⟩, ()⟩ _ .relay rfl).1
    exact (h.resolve_left fun hstd => nomatch hstd.1).2.2
  · have h := (no_relay_bypass trustingEnv openSdk (1000 * second) 60 [carriedTransfer]
      ⟨⟨∅, ∅⟩, ()⟩ _ .standard rfl).1
    exact (h.resolve_right fun hrelay => nomatch hrelay.1).2.1

end MirageNode
