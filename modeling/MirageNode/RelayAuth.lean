import MirageNode.CanonicalBytes
import MirageNode.SafeMath
import Mathlib.Data.Finset.Image
import Mathlib.Data.Finset.Filter
import Mathlib.Data.Finset.Insert
import Mathlib.Order.MinMax

/-!
# Envelope authentication

`RelaySigDecorator` (app/ante_metasig.go, app/ante_v139.go) with the nonce records of
keeper/keeper.go. A relay message is admitted when its timestamp is recent, its nonce is
unused and its signature covers its canonical bytes; the nonce is then recorded until
the timestamp has gone stale.

Times are in nanoseconds, as in Go's `time.Time`. The signature scheme and the truncated
public key hash are parameters.
-/

namespace MirageNode

open TaggedFields Fallible

/-- What the ante chain takes from outside: the governance module address, the first 16
bytes of SHA-256 and secp256k1 verification. -/
structure RelayCrypto where
  govAuthority : GoString
  pubHash : GoString → Bytes
  verifySignature : GoString → Bytes → GoString → Bool

/-- Errors of `RelaySigDecorator` and of the nonce store. -/
inductive EnvelopeError where
  | timestampRequired
  | timestampOutOfRange (ms : ℕ)
  | maxAgeZero
  | maxAgeTooLarge (seconds : ℕ)
  | timestampTooOld (age max : ℤ)
  | timestampInFuture (age : ℤ)
  | nonceRequired
  | nonceUsed
  | invalidRelayFields
  | invalidRelaySignature
  | nonceExpiryNotPositive (expiry : ℤ)
  | pruneTimeNegative (now : ℤ)
  | pruneCutoff (now : ℤ)
  deriving DecidableEq, Repr

def maxEnvelopeAgeSeconds : ℕ := 86400

/-! ## Times -/

/-- A second and a millisecond in nanoseconds. -/
def second : ℤ := 1000000000

def millisecond : ℤ := 1000000

/-- `t.Unix()`. -/
def unixSeconds (t : ℤ) : ℤ := t / second

/-- `t.Sub(u)`, which saturates at the ends of `time.Duration`. -/
def timeSub (t u : ℤ) : ℤ := max (-2 ^ 63) (min (t - u) (2 ^ 63 - 1))

def checkedEnvelopeAge (seconds : UInt64) : Except EnvelopeError ℤ := do
  failIf (seconds = 0) .maxAgeZero
  failIf (seconds.toNat > maxEnvelopeAgeSeconds) (.maxAgeTooLarge seconds.toNat)
  return seconds.toNat * second

/-- `time.UnixMilli` of the checked timestamp. -/
def checkedTxTime (timestampMs : UInt64) : Except EnvelopeError ℤ := do
  failIf (timestampMs.toNat > maxInt64) (.timestampOutOfRange timestampMs.toNat)
  return timestampMs.toNat * millisecond

/-- How far ahead of the block a timestamp may be. -/
def maxFutureSkew (maxAge : ℤ) : ℤ := min (max (maxAge / 2) (5 * second)) (30 * second)

def validateEnvelopeTimestamp (blockTime : ℤ) (timestampMs maxAgeSec : UInt64) :
    Except EnvelopeError Unit := do
  failIf (timestampMs = 0) .timestampRequired
  let txTime ← checkedTxTime timestampMs
  let maxAge ← checkedEnvelopeAge maxAgeSec
  let age := timeSub blockTime txTime
  failIf (age > maxAge) (.timestampTooOld age maxAge)
  failIf (age < -maxFutureSkew maxAge) (.timestampInFuture age)

def envelopeNonceExpiryUnix (blockTime : ℤ) (timestampMs maxAgeSec : UInt64) :
    Except EnvelopeError ℤ := do
  let maxAge ← checkedEnvelopeAge maxAgeSec
  let expiry := blockTime + (maxAge + 300 * second)
  if timestampMs > 0 then do
    let txTime ← checkedTxTime timestampMs
    return unixSeconds (max expiry (txTime + (maxAge + 300 * second)))
  else return unixSeconds expiry

/-! ## Nonce records -/

/-- The records under `envelope_nonce/` and the index under `envelope_nonce_expiry/`. -/
structure NonceStore where
  used : Finset (Bytes × UInt64)
  expiries : Finset (ℤ × Bytes × UInt64)

/-- `HasEnvelopeNonce`. -/
def NonceStore.has (s : NonceStore) (hash : Bytes) (nonce : UInt64) : Prop := (hash, nonce) ∈ s.used

instance (s : NonceStore) (hash : Bytes) (nonce : UInt64) : Decidable (s.has hash nonce) :=
  inferInstanceAs (Decidable (_ ∈ s.used))

/-- `SetEnvelopeNonce`. -/
def NonceStore.set (s : NonceStore) (hash : Bytes) (nonce : UInt64) (expiryUnix : ℤ) :
    Except EnvelopeError NonceStore := do
  failIf (expiryUnix ≤ 0) (.nonceExpiryNotPositive expiryUnix)
  return { used := insert (hash, nonce) s.used
           expiries := insert (expiryUnix, hash, nonce) s.expiries }

/-- `PruneExpiredNonces`: the records named by the index up to `nowUnix` go. -/
def NonceStore.prune (s : NonceStore) (nowUnix : ℤ) : Except EnvelopeError NonceStore := do
  failIf (nowUnix < 0) (.pruneTimeNegative nowUnix)
  failIf (nowUnix > maxInt64 - 1) (.pruneCutoff nowUnix)
  let toDelete := s.expiries.filter fun entry => entry.1 ≤ nowUnix
  return { used := s.used \ toDelete.image Prod.snd
           expiries := s.expiries \ toDelete }

/-! ## The decorator -/

def verifyRelaySignature (crypto : RelayCrypto) (m : RelayMessage.OnChain) :
    Except EnvelopeError Unit := do
  failIf (m.env.pubkey.data.length ≠ 33 ∨ m.env.signature.data.length ≠ 64) .invalidRelayFields
  failIf (crypto.verifySignature m.env.pubkey m.signBytes m.env.signature = false)
    .invalidRelaySignature

/-- `authEnvelope`, and the cases of `RelaySigDecorator.AnteHandle` with the same body. -/
def authEnvelope (crypto : RelayCrypto) (blockTime : ℤ) (maxAge : UInt64) (s : NonceStore)
    (m : RelayMessage.OnChain) : Except EnvelopeError NonceStore :=
  if m.env.authority = crypto.govAuthority then return s
  else do
    validateEnvelopeTimestamp blockTime m.env.timestamp maxAge
    failIf (m.env.nonce = 0) .nonceRequired
    failIf (s.has (crypto.pubHash m.env.pubkey) m.env.nonce) .nonceUsed
    verifyRelaySignature crypto m
    let nonceExpiry ← envelopeNonceExpiryUnix blockTime m.env.timestamp maxAge
    s.set (crypto.pubHash m.env.pubkey) m.env.nonce nonceExpiry

/-- The loop of `RelaySigDecorator.AnteHandle`. -/
def relaySig (crypto : RelayCrypto) (blockTime : ℤ) (maxAge : UInt64) (s : NonceStore)
    (msgs : List RelayMessage.OnChain) : Except EnvelopeError NonceStore :=
  msgs.foldlM (authEnvelope crypto blockTime maxAge) s

/-! ## What an admission says -/

/-- The timestamp check of a message passes. -/
def Timely (blockTime : ℤ) (maxAge timestamp : UInt64) : Prop :=
  validateEnvelopeTimestamp blockTime timestamp maxAge = .ok ()

/-- The age limit as the timestamp check uses it. -/
theorem checkedEnvelopeAge_eq_ok {seconds : UInt64} {age : ℤ} :
    checkedEnvelopeAge seconds = .ok age ↔
      (seconds ≠ 0 ∧ seconds.toNat ≤ maxEnvelopeAgeSeconds) ∧ age = seconds.toNat * second := by
  simp only [checkedEnvelopeAge, bind_eq_ok, failIf_eq_ok, pure_eq_ok, exists_const, not_lt,
    gt_iff_lt, @eq_comm _ age, and_assoc]

theorem checkedTxTime_eq_ok {ms : UInt64} {t : ℤ} :
    checkedTxTime ms = .ok t ↔ (ms.toNat : ℤ) ≤ maxInt64 ∧ t = ms.toNat * millisecond := by
  simp only [checkedTxTime, bind_eq_ok, failIf_eq_ok, pure_eq_ok, exists_const, not_lt,
    gt_iff_lt, @eq_comm _ t]

variable {blockTime : ℤ} {maxAge : UInt64}

theorem timely_iff {timestamp : UInt64} :
    Timely blockTime maxAge timestamp ↔
      timestamp ≠ 0 ∧ (timestamp.toNat : ℤ) ≤ maxInt64 ∧
      maxAge ≠ 0 ∧ maxAge.toNat ≤ maxEnvelopeAgeSeconds ∧
      timeSub blockTime (timestamp.toNat * millisecond) ≤ maxAge.toNat * second ∧
      -maxFutureSkew (maxAge.toNat * second) ≤
        timeSub blockTime (timestamp.toNat * millisecond) := by
  simp only [Timely, validateEnvelopeTimestamp, bind_eq_ok, failIf_eq_ok, exists_const,
    checkedTxTime_eq_ok, checkedEnvelopeAge_eq_ok, not_lt, gt_iff_lt]
  constructor
  · rintro ⟨hts, _, ⟨hfits, rfl⟩, _, ⟨⟨hpos, hmax⟩, rfl⟩, hold, hahead⟩
    exact ⟨hts, hfits, hpos, hmax, hold, hahead⟩
  · rintro ⟨hts, hfits, hpos, hmax, hold, hahead⟩
    exact ⟨hts, _, ⟨hfits, rfl⟩, _, ⟨⟨hpos, hmax⟩, rfl⟩, hold, hahead⟩

instance (blockTime : ℤ) (maxAge timestamp : UInt64) :
    Decidable (Timely blockTime maxAge timestamp) :=
  decidable_of_iff _ timely_iff.symm

/-- When the record of a message admitted now expires. -/
def recordExpiry (blockTime : ℤ) (maxAge timestamp : UInt64) : ℤ :=
  unixSeconds (max (blockTime + (maxAge.toNat * second + 300 * second))
    (timestamp.toNat * millisecond + (maxAge.toNat * second + 300 * second)))

theorem envelopeNonceExpiryUnix_eq {timestamp : UInt64} {expiry : ℤ}
    (htimely : Timely blockTime maxAge timestamp)
    (h : envelopeNonceExpiryUnix blockTime timestamp maxAge = .ok expiry) :
    expiry = recordExpiry blockTime maxAge timestamp := by
  obtain ⟨hts, -⟩ := timely_iff.mp htimely
  have hpos : timestamp > 0 := UInt64.pos_iff_ne_zero.mpr hts
  simp only [envelopeNonceExpiryUnix, hpos, if_true, bind_eq_ok, checkedEnvelopeAge_eq_ok,
    checkedTxTime_eq_ok, pure_eq_ok] at h
  obtain ⟨_, ⟨-, rfl⟩, _, ⟨-, rfl⟩, rfl⟩ := h
  rfl

variable {s s' : NonceStore}

/-- A user's message is admitted only with a passing timestamp, a nonce that is not
recorded and a signature over its canonical bytes, and its nonce is then recorded. -/
theorem authEnvelope_eq_ok {crypto : RelayCrypto} {m : RelayMessage.OnChain}
    (h : authEnvelope crypto blockTime maxAge s m = .ok s')
    (huser : m.env.authority ≠ crypto.govAuthority) :
    Timely blockTime maxAge m.env.timestamp ∧ m.env.nonce ≠ 0 ∧
      ¬ s.has (crypto.pubHash m.env.pubkey) m.env.nonce ∧
      crypto.verifySignature m.env.pubkey m.signBytes m.env.signature = true ∧
      s' = { used := insert (crypto.pubHash m.env.pubkey, m.env.nonce) s.used
             expiries := insert (recordExpiry blockTime maxAge m.env.timestamp,
               crypto.pubHash m.env.pubkey, m.env.nonce) s.expiries } := by
  rw [authEnvelope, if_neg huser] at h
  simp only [bind_eq_ok, failIf_eq_ok, exists_const, verifyRelaySignature, NonceStore.set,
    pure_eq_ok] at h
  obtain ⟨_, htimely, hnonce, hfresh, ⟨-, hsig⟩, _, hexp, -, rfl⟩ := h
  rw [envelopeNonceExpiryUnix_eq htimely hexp]
  exact ⟨htimely, hnonce, hfresh, by simpa using hsig, rfl⟩

theorem authEnvelope_gov {crypto : RelayCrypto} {m : RelayMessage.OnChain}
    (h : authEnvelope crypto blockTime maxAge s m = .ok s')
    (hgov : m.env.authority = crypto.govAuthority) : s' = s := by
  rw [authEnvelope, if_pos hgov] at h
  exact (Except.ok.inj h).symm

theorem NonceStore.prune_eq_ok {now : ℤ} (h : s.prune now = .ok s') :
    s' = { used := s.used \ (s.expiries.filter fun entry => entry.1 ≤ now).image Prod.snd
           expiries := s.expiries \ s.expiries.filter fun entry => entry.1 ≤ now } := by
  simp only [NonceStore.prune, bind_eq_ok, failIf_eq_ok, exists_const, pure_eq_ok] at h
  exact h.2.2.symm

/-! ## An instance to run -/

/-- A signature scheme that accepts everything, for runs. -/
def trustingCrypto : RelayCrypto where
  govAuthority := ⟨[103], by decide⟩
  pubHash := GoString.data
  verifySignature _ _ _ := true

/-- A vote stamped at second 1000. -/
def stampedVote : RelayMessage.OnChain where
  type := .vote
  env :=
    { authority := ⟨[110], by decide⟩, pubkey := ⟨List.replicate 33 2, by decide⟩
      blockHash := ⟨[], GoString.nil_fits⟩, difficulty := 0, pow := 0
      timestamp := 1000000, nonce := 7
      signature := ⟨List.replicate 64 1, by decide⟩ }
  payload := .vote ⟨[98], by decide⟩ 1

end MirageNode
