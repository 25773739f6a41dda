import MirageNode.CanonicalBytes
import MirageNode.Lib.Fallible

/-!
# The Python encoders

The `canon_base_` functions and `canon_signed_with_pow` of shared/canon.py, which
clients use to build the bytes they sign. The base has no proof; it is put in
afterwards by scanning the encoded bytes for the end of the difficulty field.

`encoders_agree`: the result is what the chain checks the signature against.
-/

namespace MirageNode

open TaggedFields List

/-- A Python text that can be a protobuf string. -/
structure PyText where
  text : String
  fits : (textBytes text).length < 2 ^ 63

/-- `s.encode("utf-8")`. -/
def PyText.encode (s : PyText) : GoString := ⟨textBytes s.text, s.fits⟩

def RelayMessage.encode (m : RelayMessage PyText) : RelayMessage.OnChain where
  type := m.type
  env := m.env
  payload := m.payload.map PyText.encode

/-! ## The encoders -/

/-- The loop of `uvarint`. -/
def pyUvarintLoop (n : ℕ) : Bytes :=
  let b := n &&& 0x7F
  if n >>> 7 ≠ 0 then UInt8.ofNat (b ||| 0x80) :: pyUvarintLoop (n >>> 7) else [UInt8.ofNat b]
termination_by n
decreasing_by
  simp only [Nat.shiftRight_eq_div_pow] at *
  omega

/-- `uvarint`. The mask of a negative number is its residue. -/
def pyUvarint (n : ℤ) : Bytes := pyUvarintLoop (n % 2 ^ 64).toNat

def encTag (tag : UInt8) : Bytes := [tag]

def encBytes (tag : UInt8) (b : Bytes) : Bytes := encTag tag ++ pyUvarint b.length ++ b

def encStr (tag : UInt8) (s : PyText) : Bytes := encBytes tag (textBytes s.text)

def encU64 (tag : UInt8) (v : ℤ) : Bytes := encTag tag ++ pyUvarint v

def encFlag (tag : UInt8) (v : Bool) : Bytes := encU64 tag (if v then 1 else 0)

def pyHeader (name : String) : Bytes := textBytes "mirage.core.v1:" ++ textBytes name ++ [0]

/-- `_canon_envelope`; the older encoders have its body written out. -/
def canonEnvelope (name : String) (e : Envelope) : Bytes :=
  pyHeader name ++ encBytes 2 e.pubkey.data ++ encBytes 3 e.blockHash.data ++
    encU64 4 e.difficulty.toNat ++ encU64 6 e.timestamp.toNat ++ encU64 7 e.nonce.toNat

/-- `dir_val` of `canon_base_vote`. -/
def dirVal (direction : ℤ) : ℤ := if direction ≥ 0 then direction else direction % 2 ^ 32

/-- What each `canon_base_` function writes behind the envelope. -/
def canonPayload : {t : MsgType} → Payload PyText t → Bytes
  | _, .post target community title content tag media version =>
    encStr 100 target ++ encStr 101 community ++ encStr 102 title ++ encStr 103 content ++
      encStr 104 tag ++ media.flatMap (encStr 105) ++
      if version ≠ 0 then encU64 106 version.toNat else []
  | _, .vote target direction => encStr 100 target ++ encU64 101 (dirVal direction.toInt)
  | _, .setUsername target username => encStr 100 target ++ encStr 101 username
  | _, .followUser target user => encStr 100 target ++ encStr 101 user
  | _, .unfollowUser target user => encStr 100 target ++ encStr 101 user
  | _, .followTopic target topic => encStr 100 target ++ encStr 101 topic
  | _, .unfollowTopic target topic => encStr 100 target ++ encStr 101 topic
  | _, .blockTopic target topic => encStr 100 target ++ encStr 101 topic
  | _, .unblockTopic target topic => encStr 100 target ++ encStr 101 topic
  | _, .joinCommunity community mode pinnedTeamId =>
    encStr 100 community ++ encU64 101 mode.toInt ++ encU64 102 pinnedTeamId.toNat
  | _, .leaveCommunity community => encStr 100 community
  | _, .blockPost target => encStr 100 target
  | _, .unblockPost target => encStr 100 target
  | _, .blockUser target => encStr 100 target
  | _, .unblockUser target => encStr 100 target
  | _, .blockCommunity target community => encStr 100 target ++ encStr 101 community
  | _, .unblockCommunity target community => encStr 100 target ++ encStr 101 community
  | _, .delete target => encStr 100 target
  | _, .deleteUser target => encStr 100 target
  | _, .sendTokens sender target amount =>
    encStr 100 sender ++ encStr 101 target ++ encU64 102 amount.toNat
  | _, .edit target community title content tag override media =>
    encStr 100 target ++ encStr 101 community ++ encStr 102 title ++ encStr 103 content ++
      encStr 104 tag ++ encStr 105 override ++ media.flatMap (encStr 106)
  | _, .subscribe level target periodCount =>
    encU64 100 level.toNat ++ (if target.text ≠ "" then encStr 101 target else []) ++
      if periodCount ≠ 0 then encU64 102 periodCount.toNat else []
  | _, .setAutoRenewal autoRenew => encFlag 100 autoRenew
  | _, .award target awardType => encStr 100 target ++ encStr 101 awardType
  | _, .setBiography target biography => encStr 100 target ++ encStr 101 biography
  | _, .createCurationTeam community name description =>
    encStr 100 community ++ encStr 101 name ++ encStr 102 description
  | _, .setCurationTeamProfile community teamId name description =>
    encStr 100 community ++ encU64 101 teamId.toNat ++ encStr 102 name ++ encStr 103 description
  | _, .inviteCurator community teamId target =>
    encStr 100 community ++ encU64 101 teamId.toNat ++ encStr 102 target
  | _, .revokeCuratorInvite community teamId target =>
    encStr 100 community ++ encU64 101 teamId.toNat ++ encStr 102 target
  | _, .acceptCuratorInvite community teamId => encStr 100 community ++ encU64 101 teamId.toNat
  | _, .declineCuratorInvite community teamId => encStr 100 community ++ encU64 101 teamId.toNat
  | _, .leaveCurationTeam community teamId => encStr 100 community ++ encU64 101 teamId.toNat
  | _, .removeCurator community teamId target =>
    encStr 100 community ++ encU64 101 teamId.toNat ++ encStr 102 target
  | _, .transferCurationTeam community teamId newOwner =>
    encStr 100 community ++ encU64 101 teamId.toNat ++ encStr 102 newOwner
  | _, .deleteCurationTeam community teamId => encStr 100 community ++ encU64 101 teamId.toNat
  | _, .setCurationPreference community mode pinnedTeamId =>
    encStr 100 community ++ encU64 101 mode.toInt ++ encU64 102 pinnedTeamId.toNat
  | _, .setCurationPostHidden community teamId target hidden =>
    encStr 100 community ++ encU64 101 teamId.toNat ++ encStr 102 target ++ encFlag 103 hidden
  | _, .setCurationUserHidden community teamId target hidden =>
    encStr 100 community ++ encU64 101 teamId.toNat ++ encStr 102 target ++ encFlag 103 hidden
  | _, .setCurationThreadLocked community teamId rootHash locked =>
    encStr 100 community ++ encU64 101 teamId.toNat ++ encStr 102 rootHash ++ encFlag 103 locked
  | _, .setCurationSubscriberOnly community teamId enabled =>
    encStr 100 community ++ encU64 101 teamId.toNat ++ encFlag 102 enabled
  | _, .setCurationTag community teamId tag =>
    encStr 100 community ++ encU64 101 teamId.toNat ++ encStr 102 tag
  | _, .setCurationPostTag community teamId target tag clear =>
    encStr 100 community ++ encU64 101 teamId.toNat ++ encStr 102 target ++ encStr 103 tag ++
      encFlag 104 clear
  | _, .claimCreatorRewards epochIds => epochIds.flatMap fun id => encU64 100 id.toInt

/-- The `canon_base_` function of the message's type. `canon_base_post` is called without
its `pow_val`. -/
def canonBase (m : RelayMessage PyText) : Bytes :=
  canonEnvelope m.type.name m.env ++ canonPayload m.payload

/-! ## Putting the proof in -/

/-- The `ValueError`s of `canon_signed_with_pow`. -/
inductive CanonError where
  | uvarintOverflow
  | expectedTag2
  | expectedTag3
  | expectedTag4
  | expectedTag6AfterTag4
  deriving DecidableEq, Repr

/-- The loop of `_read_uvarint` over the bytes from `idx` on. -/
def readUvarintLoop : Bytes → ℕ → ℕ → ℕ → Except CanonError (ℕ × ℕ)
  | [], _, _, _ => .error .uvarintOverflow
  | b :: rest, idx, n, shift =>
    let n := n ||| ((b.toNat &&& 0x7F) <<< shift)
    if b &&& 0x80 = 0 then .ok (n, idx + 1) else readUvarintLoop rest (idx + 1) n (shift + 7)

/-- `_read_uvarint`: the number at `idx` and the index behind it. -/
def readUvarint (buf : Bytes) (idx : ℕ) : Except CanonError (ℕ × ℕ) :=
  readUvarintLoop (buf.drop idx) idx 0 0

/-- The index behind the first zero byte, or the length. -/
def skipName : Bytes → ℕ
  | [] => 0
  | b :: rest => if b ≠ 0 then skipName rest + 1 else 1

/-- Raises unless the byte at `i` is the tag; returns the index behind it. -/
def expectTag (err : CanonError) (tag : UInt8) (buf : Bytes) (i : ℕ) : Except CanonError ℕ :=
  if buf[i]? = some tag then .ok (i + 1) else .error err

def canonSignedWithPow (base : Bytes) (powVal : ℤ) : Except CanonError Bytes := do
  let i := skipName base
  let i ← expectTag .expectedTag2 2 base i
  let (length2, i) ← readUvarint base i
  let i ← expectTag .expectedTag3 3 base (i + length2)
  let (length3, i) ← readUvarint base i
  let i ← expectTag .expectedTag4 4 base (i + length3)
  let (_, i) ← readUvarint base i
  let _ ← expectTag .expectedTag6AfterTag4 6 base i
  return base.take i ++ encU64 5 powVal ++ base.drop i

/-! ## The encoders write the same fields -/

theorem or_high {n : ℕ} (h : n < 128) : n ||| 0x80 = n + 128 := by
  have hor := Nat.two_pow_add_eq_or_of_lt (i := 7) h 1
  rw [Nat.or_comm, Nat.add_comm]
  exact hor.symm

theorem low_bits (n : ℕ) : n &&& 0x7F = n % 128 := Nat.and_two_pow_sub_one_eq_mod n 7

theorem high_bit_eq_zero (b : UInt8) : b &&& 0x80 = 0 ↔ b.toNat < 128 := by
  have hall : ∀ n : Fin 256, (n.val &&& 128 = 0 ↔ n.val < 128) := by decide +kernel
  rw [← UInt8.toNat_inj, UInt8.toNat_and]
  exact hall ⟨b.toNat, b.toNat_lt⟩

theorem pyUvarintLoop_eq (n : ℕ) : pyUvarintLoop n = uvarint n := by
  induction n using Nat.strong_induction_on with
  | _ n ih =>
    rw [pyUvarintLoop]
    simp only [Nat.shiftRight_eq_div_pow, Nat.reducePow, low_bits]
    rcases Nat.lt_or_ge n 128 with hn | hn
    · rw [if_neg (by omega), uvarint_of_lt hn, Nat.mod_eq_of_lt hn]
    · rw [if_pos (by omega), uvarint_of_le hn, ih (n / 128) (by omega)]
      congr 1
      apply UInt8.toNat_inj.mp
      rw [toNat_or_high, or_high (Nat.mod_lt _ (by decide)), UInt8.toNat_ofNat']
      omega

theorem pyUvarint_natCast {n : ℕ} (h : n < 2 ^ 64) : pyUvarint n = uvarint n := by
  rw [pyUvarint, pyUvarintLoop_eq]
  congr 1
  omega

theorem encU64_eq (tag : UInt8) (v : UInt64) :
    encU64 tag v.toNat = (writeUvarint tag v).encode := by
  rw [encU64, pyUvarint_natCast v.toNat_lt]
  rfl

theorem encBytes_eq (tag : UInt8) (s : GoString) :
    encBytes tag s.data = (writeString tag s).encode := by
  rw [encBytes, pyUvarint_natCast (by have := s.fits; omega)]
  simp [encTag, writeString, Field.encode]

theorem encStr_eq (tag : UInt8) (s : PyText) : encStr tag s = (writeString tag s.encode).encode :=
  encBytes_eq tag s.encode

theorem encFlag_eq (tag : UInt8) (v : Bool) : encFlag tag v = (writeCanonBool tag v).encode := by
  cases v
  · exact encU64_eq tag 0
  · exact encU64_eq tag 1

theorem encU64_uint32 (tag : UInt8) (v : UInt32) :
    encU64 tag v.toNat = (writeUvarint tag v.toUInt64).encode := by
  rw [← encU64_eq, UInt32.toNat_toUInt64]

theorem int64_toInt_emod (id : Int64) : id.toInt % 2 ^ 64 = id.toUInt64.toNat := by
  have hmod : id.toInt = Int.bmod id.toUInt64.toNat (2 ^ 64) :=
    BitVec.toInt_eq_toNat_bmod id.toBitVec
  have hlt := id.toUInt64.toNat_lt
  have hemod := Int.bmod_emod (x := id.toUInt64.toNat) (m := 2 ^ 64)
  rw [hmod]
  omega

theorem int32_toInt_emod (d : Int32) : d.toInt % 2 ^ 32 = d.toUInt32.toNat := by
  have hmod : d.toInt = Int.bmod d.toUInt32.toNat (2 ^ 32) := BitVec.toInt_eq_toNat_bmod d.toBitVec
  have hlt := d.toUInt32.toNat_lt
  have hemod := Int.bmod_emod (x := d.toUInt32.toNat) (m := 2 ^ 32)
  rw [hmod]
  omega

theorem encU64_int64 (tag : UInt8) (id : Int64) :
    encU64 tag id.toInt = (writeUvarint tag id.toUInt64).encode := by
  have hmask : id.toInt % 2 ^ 64 = (id.toUInt64.toNat : ℤ) % 2 ^ 64 := by
    have hlt := id.toUInt64.toNat_lt
    rw [int64_toInt_emod]
    omega
  rw [← encU64_eq, encU64, encU64, pyUvarint, pyUvarint, hmask]

theorem encU64_int32 (tag : UInt8) (mode : Int32) :
    encU64 tag mode.toInt = (writeUvarint tag mode.toInt64.toUInt64).encode := by
  rw [← encU64_int64, Int32.toInt_toInt64]

theorem encU64_dirVal (tag : UInt8) (direction : Int32) :
    encU64 tag (dirVal direction.toInt) =
      (writeUvarint tag direction.toUInt32.toUInt64).encode := by
  have hval : dirVal direction.toInt = direction.toUInt32.toNat := by
    have hlt := direction.toInt_lt
    rw [← int32_toInt_emod, dirVal]
    split <;> omega
  rw [← encU64_uint32, hval]

theorem flatMap_encStr (tag : UInt8) (texts : List PyText) :
    texts.flatMap (encStr tag) = encodeAll (writeRepeatedString tag (texts.map PyText.encode)) := by
  rw [encodeAll, writeRepeatedString, flatMap_map, flatMap_map]
  exact congrArg (texts.flatMap ·) (funext (encStr_eq tag))

theorem textBytes_eq_nil {s : String} : textBytes s = [] ↔ s = "" := by
  rw [← String.utf8ByteSize_eq_zero_iff, ← length_eq_zero_iff]
  rfl

theorem canonPayload_eq {t : MsgType} (p : Payload PyText t) :
    canonPayload p = encodeAll (signPayload (p.map PyText.encode)) := by
  cases p
  case post =>
    simp only [canonPayload, signPayload, Payload.map, appendPostPayload, encodeAll_append,
      encStr_eq, flatMap_encStr, encU64_uint32, writeRepeatedString]
    split <;> simp
  case subscribe =>
    simp only [canonPayload, signPayload, Payload.map, appendSubscribePayload, encodeAll_append,
      encodeAll_cons, encStr_eq, encU64_uint32, PyText.encode, ne_eq, textBytes_eq_nil]
    split <;> split <;> simp
  case claimCreatorRewards =>
    simp [canonPayload, signPayload, Payload.map, encodeAll, flatMap_map, encU64_int64]
  all_goals
    simp [canonPayload, signPayload, Payload.map, encStr_eq, encU64_eq, encFlag_eq, encU64_int32,
      encU64_dirVal, flatMap_encStr]

theorem readUvarintLoop_uvarint (v : ℕ) (rest : Bytes) (idx n shift : ℕ) :
    readUvarintLoop (uvarint v ++ rest) idx n shift =
      .ok (n ||| v <<< shift, idx + (uvarint v).length) := by
  induction v using Nat.strong_induction_on generalizing idx n shift with
  | _ v ih =>
    rcases Nat.lt_or_ge v 128 with hv | hv
    · have hb := toNat_ofNat_small hv
      rw [uvarint_of_lt hv, singleton_append, readUvarintLoop]
      simp only [high_bit_eq_zero, hb, hv, low_bits, Nat.mod_eq_of_lt, if_true, length_singleton]
    · have hb := toNat_or_high v
      have hhigh : ¬ v % 128 + 128 < 128 := by omega
      rw [uvarint_of_le hv, cons_append, readUvarintLoop]
      simp only [high_bit_eq_zero, hb, hhigh, low_bits, if_false]
      rw [ih (v / 128) (by omega), length_cons]
      have hlow : (v % 128 + 128) % 128 = v % 128 := by omega
      have hjoin : v = v % 128 ||| (v / 128) <<< 7 := by
        have hor := Nat.two_pow_add_eq_or_of_lt (i := 7) (Nat.mod_lt v (by decide)) (v / 128)
        rw [Nat.or_comm, Nat.shiftLeft_eq, Nat.mul_comm, ← hor]
        omega
      congr 2
      · rw [hlow, Nat.or_assoc]
        conv_rhs => rw [hjoin, Nat.shiftLeft_or_distrib, ← Nat.shiftLeft_add, Nat.add_comm 7]
      · omega

theorem readUvarint_at {base front rest : Bytes} {v : ℕ} (h : base = front ++ (uvarint v ++ rest)) :
    readUvarint base front.length = .ok (v, (front ++ uvarint v).length) := by
  rw [h, readUvarint, drop_left, readUvarintLoop_uvarint, length_append]
  simp

theorem expectTag_at {base front rest : Bytes} {tag : UInt8} (err : CanonError)
    (h : base = front ++ tag :: rest) :
    expectTag err tag base front.length = .ok (front ++ [tag]).length := by
  simp [expectTag, h]

theorem skipName_at {name : Bytes} (hname : 0 ∉ name) (rest : Bytes) :
    skipName (name ++ 0 :: rest) = name.length + 1 := by
  induction name with
  | nil => rfl
  | cons b name ih =>
    simp only [mem_cons, not_or] at hname
    simp [skipName, Ne.symm hname.1, ih hname.2]

/-- The scan stops behind the difficulty, whatever the fields hold. -/
theorem canonSignedWithPow_eq {name : Bytes} (hname : 0 ∉ name) (pubkey hash : Bytes)
    (difficulty : ℕ) (rest : Bytes) (powVal : ℤ) :
    canonSignedWithPow (name ++ 0 :: ((Field.blob 2 pubkey).encode ++ ((Field.blob 3 hash).encode ++
      ((Field.uint 4 difficulty).encode ++ 6 :: rest)))) powVal =
    .ok (name ++ 0 :: ((Field.blob 2 pubkey).encode ++ ((Field.blob 3 hash).encode ++
      ((Field.uint 4 difficulty).encode ++ (encU64 5 powVal ++ 6 :: rest))))) := by
  simp only [Field.encode, cons_append, append_assoc]
  generalize hbase : name ++ 0 :: 2 :: (uvarint pubkey.length ++ (pubkey ++ 3 ::
    (uvarint hash.length ++ (hash ++ 4 :: (uvarint difficulty ++ 6 :: rest))))) = base
  -- The bytes read before each step.
  let f₀ := name ++ [0]
  let f₁ := f₀ ++ [2] ++ uvarint pubkey.length ++ pubkey
  let f₂ := f₁ ++ [3] ++ uvarint hash.length ++ hash
  let f₃ := f₂ ++ [4] ++ uvarint difficulty
  have hskip : skipName base = f₀.length := by
    rw [← hbase, skipName_at hname]
    simp [f₀]
  have htag₂ : expectTag .expectedTag2 2 base f₀.length = .ok (f₀ ++ [2]).length :=
    expectTag_at _ (by rw [← hbase]; simp [f₀]; rfl)
  have hlen₂ : readUvarint base (f₀ ++ [2]).length =
      .ok (pubkey.length, (f₀ ++ [2] ++ uvarint pubkey.length).length) :=
    readUvarint_at (by rw [← hbase]; simp [f₀]; rfl)
  have htag₃ : expectTag .expectedTag3 3 base f₁.length = .ok (f₁ ++ [3]).length :=
    expectTag_at _ (by rw [← hbase]; simp [f₀, f₁]; rfl)
  have hlen₃ : readUvarint base (f₁ ++ [3]).length =
      .ok (hash.length, (f₁ ++ [3] ++ uvarint hash.length).length) :=
    readUvarint_at (by rw [← hbase]; simp [f₀, f₁]; rfl)
  have htag₄ : expectTag .expectedTag4 4 base f₂.length = .ok (f₂ ++ [4]).length :=
    expectTag_at _ (by rw [← hbase]; simp [f₀, f₁, f₂]; rfl)
  have hlen₄ : readUvarint base (f₂ ++ [4]).length = .ok (difficulty, f₃.length) :=
    readUvarint_at (by rw [← hbase]; simp [f₀, f₁, f₂]; rfl)
  have htag₆ : expectTag .expectedTag6AfterTag4 6 base f₃.length = .ok (f₃ ++ [6]).length :=
    expectTag_at _ (by rw [← hbase]; simp [f₀, f₁, f₂, f₃]; rfl)
  have hpubkey : (f₀ ++ [2] ++ uvarint pubkey.length).length + pubkey.length = f₁.length :=
    length_append.symm
  have hhash : (f₁ ++ [3] ++ uvarint hash.length).length + hash.length = f₂.length :=
    length_append.symm
  have hsplit : base = f₃ ++ 6 :: rest := by
    rw [← hbase]
    simp [f₀, f₁, f₂, f₃]
  have hresult : canonSignedWithPow base powVal =
      .ok (base.take f₃.length ++ encU64 5 powVal ++ base.drop f₃.length) := by
    simp only [canonSignedWithPow, hskip, htag₂, hlen₂, hpubkey, htag₃, hlen₃, hhash, htag₄, hlen₄,
      htag₆, Fallible.ok_bind]
    rfl
  rw [hresult, hsplit, take_left, drop_left]
  simp [f₀, f₁, f₂, f₃]

theorem canonBase_eq (m : RelayMessage PyText) :
    canonBase m = (textBytes "mirage.core.v1:" ++ textBytes m.type.name) ++
      0 :: ((writeString 2 m.env.pubkey).encode ++ ((writeString 3 m.env.blockHash).encode ++
        ((writeUvarint 4 m.env.difficulty).encode ++ ((writeUvarint 6 m.env.timestamp).encode ++
          ((writeUvarint 7 m.env.nonce).encode ++ encodeAll
            (signPayload m.encode.payload)))))) := by
  rw [canonBase, canonPayload_eq]
  simp [canonEnvelope, pyHeader, encBytes_eq, encU64_eq, RelayMessage.encode]

theorem zero_notMem_header (t : MsgType) :
    (0 : UInt8) ∉ textBytes "mirage.core.v1:" ++ textBytes t.name := by
  have hstart : (0 : UInt8) ∉ textBytes "mirage.core.v1:" := by decide +kernel
  rw [mem_append, not_or]
  exact ⟨hstart, zero_notMem_name t⟩

/-- The proof-of-work bytes are the signature bytes without their one field 5, for every
type that has a builder, and the Python encoders give the signature bytes. -/
theorem encoders_agree :
    (∀ m : RelayMessage.OnChain,
      (m.signWrites.filter fun f => f.tag = 5) = [writeUvarint 5 m.env.pow] ∧
      m.powBytes = if m.type = .setAutoRenewal then none
        else some (canonBuf m.type.name (m.signWrites.filter fun f => f.tag ≠ 5))) ∧
    ∀ m : RelayMessage PyText,
      canonSignedWithPow (canonBase m) m.env.pow.toNat = .ok m.encode.signBytes := by
  refine ⟨RelayMessage.powBytes_eq, fun m => ?_⟩
  rw [canonBase_eq]
  have hscan := canonSignedWithPow_eq (zero_notMem_header m.type) m.env.pubkey.data
    m.env.blockHash.data m.env.difficulty.toNat (uvarint m.env.timestamp.toNat ++
      ((writeUvarint 7 m.env.nonce).encode ++ encodeAll (signPayload m.encode.payload)))
    m.env.pow.toNat
  rw [encU64_eq] at hscan
  refine hscan.trans (congrArg Except.ok ?_)
  simp [RelayMessage.signBytes, RelayMessage.signWrites, canonBuf, newCanonWriter, signEnvelope,
    RelayMessage.encode, writeString, writeUvarint, Field.encode]

end MirageNode
