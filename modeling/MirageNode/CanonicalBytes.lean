import MirageNode.RelayMessage

/-!
# Canonical bytes

What a relay signature covers (`RelaySigDecorator`, app/ante_metasig.go and
app/ante_v139.go) and what the proof of work is computed over (the builders of
app/ante_pow.go). Both write a list of tagged fields behind the message name; the
proof-of-work bytes leave out the proof, field 5.

`canonical_bytes_determine_message` says that neither can be read as two messages,
`RelayMessage.powBytes_eq` that the two families of encoders agree.
-/

namespace MirageNode

open TaggedFields List

/-! ## Writers -/

def newCanonWriter (name : String) : Bytes :=
  textBytes "mirage.core.v1:" ++ textBytes name ++ [0x00]

def writeUvarint (tag : UInt8) (v : UInt64) : Field := .uint tag v.toNat

/-- `writeString` and `writeBytes`. -/
def writeString (tag : UInt8) (s : GoString) : Field := .blob tag s.data

def writeRepeatedString (tag : UInt8) (ss : List GoString) : List Field := ss.map (writeString tag)

def writeCanonBool (tag : UInt8) (v : Bool) : Field := writeUvarint tag (if v then 1 else 0)

/-- The buffer of a writer after the given writes. -/
def canonBuf (name : String) (writes : List Field) : Bytes :=
  newCanonWriter name ++ encodeAll writes

/-- `appendPostPayload` of app/legacy_mobile.go. -/
def appendPostPayload (target community title content tag : GoString) (media : List GoString)
    (protocolVersion : UInt32) : List Field :=
  [writeString 100 target, writeString 101 community, writeString 102 title,
    writeString 103 content, writeString 104 tag] ++
  (media.map (writeString 105) ++
    if protocolVersion ≠ 0 then [writeUvarint 106 protocolVersion.toUInt64] else [])

/-- `appendSubscribePayload` of app/legacy_mobile.go. -/
def appendSubscribePayload (level : UInt32) (target : GoString) (periodCount : UInt32) :
    List Field :=
  writeUvarint 100 level.toUInt64 ::
  ((if target.data ≠ [] then [writeString 101 target] else []) ++
    if periodCount ≠ 0 then [writeUvarint 102 periodCount.toUInt64] else [])

/-- The payload writes of `RelaySigDecorator.AnteHandle`. -/
def signPayload : {t : MsgType} → Payload GoString t → List Field
  | _, .post target community title content tag media version =>
    appendPostPayload target community title content tag media version
  | _, .vote target direction =>
    [writeString 100 target, writeUvarint 101 direction.toUInt32.toUInt64]
  | _, .setUsername target username => [writeString 100 target, writeString 101 username]
  | _, .followUser target user => [writeString 100 target, writeString 101 user]
  | _, .unfollowUser target user => [writeString 100 target, writeString 101 user]
  | _, .followTopic target topic => [writeString 100 target, writeString 101 topic]
  | _, .unfollowTopic target topic => [writeString 100 target, writeString 101 topic]
  | _, .blockTopic target topic => [writeString 100 target, writeString 101 topic]
  | _, .unblockTopic target topic => [writeString 100 target, writeString 101 topic]
  | _, .joinCommunity community mode pinnedTeamId =>
    [writeString 100 community, writeUvarint 101 mode.toInt64.toUInt64,
      writeUvarint 102 pinnedTeamId]
  | _, .leaveCommunity community => [writeString 100 community]
  | _, .blockPost target => [writeString 100 target]
  | _, .unblockPost target => [writeString 100 target]
  | _, .blockUser target => [writeString 100 target]
  | _, .unblockUser target => [writeString 100 target]
  | _, .blockCommunity target community => [writeString 100 target, writeString 101 community]
  | _, .unblockCommunity target community => [writeString 100 target, writeString 101 community]
  | _, .delete target => [writeString 100 target]
  | _, .deleteUser target => [writeString 100 target]
  | _, .sendTokens sender target amount =>
    [writeString 100 sender, writeString 101 target, writeUvarint 102 amount]
  | _, .edit target community title content tag override media =>
    [writeString 100 target, writeString 101 community, writeString 102 title,
      writeString 103 content, writeString 104 tag, writeString 105 override] ++
    writeRepeatedString 106 media
  | _, .subscribe level target periodCount => appendSubscribePayload level target periodCount
  | _, .setAutoRenewal autoRenew => [writeCanonBool 100 autoRenew]
  | _, .award target awardType => [writeString 100 target, writeString 101 awardType]
  | _, .setBiography target biography => [writeString 100 target, writeString 101 biography]
  | _, .createCurationTeam community name description =>
    [writeString 100 community, writeString 101 name, writeString 102 description]
  | _, .setCurationTeamProfile community teamId name description =>
    [writeString 100 community, writeUvarint 101 teamId, writeString 102 name,
      writeString 103 description]
  | _, .inviteCurator community teamId target =>
    [writeString 100 community, writeUvarint 101 teamId, writeString 102 target]
  | _, .revokeCuratorInvite community teamId target =>
    [writeString 100 community, writeUvarint 101 teamId, writeString 102 target]
  | _, .acceptCuratorInvite community teamId =>
    [writeString 100 community, writeUvarint 101 teamId]
  | _, .declineCuratorInvite community teamId =>
    [writeString 100 community, writeUvarint 101 teamId]
  | _, .leaveCurationTeam community teamId =>
    [writeString 100 community, writeUvarint 101 teamId]
  | _, .removeCurator community teamId target =>
    [writeString 100 community, writeUvarint 101 teamId, writeString 102 target]
  | _, .transferCurationTeam community teamId newOwner =>
    [writeString 100 community, writeUvarint 101 teamId, writeString 102 newOwner]
  | _, .deleteCurationTeam community teamId =>
    [writeString 100 community, writeUvarint 101 teamId]
  | _, .setCurationPreference community mode pinnedTeamId =>
    [writeString 100 community, writeUvarint 101 mode.toInt64.toUInt64,
      writeUvarint 102 pinnedTeamId]
  | _, .setCurationPostHidden community teamId target hidden =>
    [writeString 100 community, writeUvarint 101 teamId, writeString 102 target,
      writeCanonBool 103 hidden]
  | _, .setCurationUserHidden community teamId target hidden =>
    [writeString 100 community, writeUvarint 101 teamId, writeString 102 target,
      writeCanonBool 103 hidden]
  | _, .setCurationThreadLocked community teamId rootHash locked =>
    [writeString 100 community, writeUvarint 101 teamId, writeString 102 rootHash,
      writeCanonBool 103 locked]
  | _, .setCurationSubscriberOnly community teamId enabled =>
    [writeString 100 community, writeUvarint 101 teamId, writeCanonBool 102 enabled]
  | _, .setCurationTag community teamId tag =>
    [writeString 100 community, writeUvarint 101 teamId, writeString 102 tag]
  | _, .setCurationPostTag community teamId target tag clear =>
    [writeString 100 community, writeUvarint 101 teamId, writeString 102 target,
      writeString 103 tag, writeCanonBool 104 clear]
  | _, .claimCreatorRewards epochIds => epochIds.map fun id => writeUvarint 100 id.toUInt64

/-- The envelope writes of `RelaySigDecorator.AnteHandle` and `authEnvelope`. -/
def signEnvelope (e : Envelope) : List Field :=
  [writeString 2 e.pubkey, writeString 3 e.blockHash, writeUvarint 4 e.difficulty,
    writeUvarint 5 e.pow, writeUvarint 6 e.timestamp, writeUvarint 7 e.nonce]

/-- All the writes the signature covers. -/
def RelayMessage.signWrites (m : RelayMessage.OnChain) : List Field :=
  signEnvelope m.env ++ signPayload m.payload

/-- The bytes the envelope signature is checked against. -/
def RelayMessage.signBytes (m : RelayMessage.OnChain) : Bytes :=
  canonBuf m.type.name m.signWrites

/-! ## The proof-of-work builders -/

/-- The payload writes of the `buildCanonFor` functions and of the calls of
`buildCanonV139` in `PowDecorator.AnteHandle`. `MsgSetAutoRenewal` has no builder. -/
def powPayload : {t : MsgType} → Payload GoString t → Option (List Field)
  | _, .post target community title content tag media version =>
    some (appendPostPayload target community title content tag media version)
  | _, .vote target direction =>
    some [writeString 100 target, writeUvarint 101 direction.toUInt32.toUInt64]
  | _, .setUsername target username => some [writeString 100 target, writeString 101 username]
  | _, .followUser target user => some [writeString 100 target, writeString 101 user]
  | _, .unfollowUser target user => some [writeString 100 target, writeString 101 user]
  | _, .followTopic target topic => some [writeString 100 target, writeString 101 topic]
  | _, .unfollowTopic target topic => some [writeString 100 target, writeString 101 topic]
  | _, .blockTopic target topic => some [writeString 100 target, writeString 101 topic]
  | _, .unblockTopic target topic => some [writeString 100 target, writeString 101 topic]
  | _, .joinCommunity community mode pinnedTeamId =>
    some [writeString 100 community, writeUvarint 101 mode.toInt64.toUInt64,
      writeUvarint 102 pinnedTeamId]
  | _, .leaveCommunity community => some [writeString 100 community]
  | _, .blockPost target => some [writeString 100 target]
  | _, .unblockPost target => some [writeString 100 target]
  | _, .blockUser target => some [writeString 100 target]
  | _, .unblockUser target => some [writeString 100 target]
  | _, .blockCommunity target community =>
    some [writeString 100 target, writeString 101 community]
  | _, .unblockCommunity target community =>
    some [writeString 100 target, writeString 101 community]
  | _, .delete target => some [writeString 100 target]
  | _, .deleteUser target => some [writeString 100 target]
  | _, .sendTokens sender target amount =>
    some [writeString 100 sender, writeString 101 target, writeUvarint 102 amount]
  | _, .edit target community title content tag override media =>
    some ([writeString 100 target, writeString 101 community, writeString 102 title,
      writeString 103 content, writeString 104 tag, writeString 105 override] ++
      writeRepeatedString 106 media)
  | _, .subscribe level target periodCount =>
    some (appendSubscribePayload level target periodCount)
  | _, .setAutoRenewal _ => none
  | _, .award target awardType => some [writeString 100 target, writeString 101 awardType]
  | _, .setBiography target biography => some [writeString 100 target, writeString 101 biography]
  | _, .createCurationTeam community name description =>
    some [writeString 100 community, writeString 101 name, writeString 102 description]
  | _, .setCurationTeamProfile community teamId name description =>
    some [writeString 100 community, writeUvarint 101 teamId, writeString 102 name,
      writeString 103 description]
  | _, .inviteCurator community teamId target =>
    some [writeString 100 community, writeUvarint 101 teamId, writeString 102 target]
  | _, .revokeCuratorInvite community teamId target =>
    some [writeString 100 community, writeUvarint 101 teamId, writeString 102 target]
  | _, .acceptCuratorInvite community teamId =>
    some [writeString 100 community, writeUvarint 101 teamId]
  | _, .declineCuratorInvite community teamId =>
    some [writeString 100 community, writeUvarint 101 teamId]
  | _, .leaveCurationTeam community teamId =>
    some [writeString 100 community, writeUvarint 101 teamId]
  | _, .removeCurator community teamId target =>
    some [writeString 100 community, writeUvarint 101 teamId, writeString 102 target]
  | _, .transferCurationTeam community teamId newOwner =>
    some [writeString 100 community, writeUvarint 101 teamId, writeString 102 newOwner]
  | _, .deleteCurationTeam community teamId =>
    some [writeString 100 community, writeUvarint 101 teamId]
  | _, .setCurationPreference community mode pinnedTeamId =>
    some [writeString 100 community, writeUvarint 101 mode.toInt64.toUInt64,
      writeUvarint 102 pinnedTeamId]
  | _, .setCurationPostHidden community teamId target hidden =>
    some [writeString 100 community, writeUvarint 101 teamId, writeString 102 target,
      writeCanonBool 103 hidden]
  | _, .setCurationUserHidden community teamId target hidden =>
    some [writeString 100 community, writeUvarint 101 teamId, writeString 102 target,
      writeCanonBool 103 hidden]
  | _, .setCurationThreadLocked community teamId rootHash locked =>
    some [writeString 100 community, writeUvarint 101 teamId, writeString 102 rootHash,
      writeCanonBool 103 locked]
  | _, .setCurationSubscriberOnly community teamId enabled =>
    some [writeString 100 community, writeUvarint 101 teamId, writeCanonBool 102 enabled]
  | _, .setCurationTag community teamId tag =>
    some [writeString 100 community, writeUvarint 101 teamId, writeString 102 tag]
  | _, .setCurationPostTag community teamId target tag clear =>
    some [writeString 100 community, writeUvarint 101 teamId, writeString 102 target,
      writeString 103 tag, writeCanonBool 104 clear]
  | _, .claimCreatorRewards epochIds =>
    some (epochIds.map fun id => writeUvarint 100 id.toUInt64)

def powEnvelope (e : Envelope) : List Field :=
  [writeString 2 e.pubkey, writeString 3 e.blockHash, writeUvarint 4 e.difficulty,
    writeUvarint 6 e.timestamp, writeUvarint 7 e.nonce]

/-- The canonical bytes handed to `verifyPoW`. -/
def RelayMessage.powBytes (m : RelayMessage.OnChain) : Option Bytes :=
  (powPayload m.payload).map fun writes => canonBuf m.type.name (powEnvelope m.env ++ writes)

/-- The password `validatePoWBytesArgon2` hashes: the canonical bytes, a colon and the
proof. -/
def powGuess (canonical : Bytes) (pow : UInt64) : Bytes := canonical ++ 0x3A :: uvarint pow.toNat

def RelayMessage.powInput (m : RelayMessage.OnChain) : Option Bytes :=
  m.powBytes.map fun canonical => powGuess canonical m.env.pow

/-! ## The two families agree -/

variable {t : MsgType}

theorem powPayload_eq (p : Payload GoString t) :
    powPayload p = if t = .setAutoRenewal then none else some (signPayload p) := by
  cases p <;> rfl

section tags

variable {tag : UInt8}

@[simp] theorem tag_writeString (s : GoString) : (writeString tag s).tag = tag := rfl
@[simp] theorem tag_writeUvarint (v : UInt64) : (writeUvarint tag v).tag = tag := rfl
@[simp] theorem tag_writeCanonBool (b : Bool) : (writeCanonBool tag b).tag = tag := rfl
@[simp] theorem isBlob_writeString (s : GoString) : (writeString tag s).isBlob = true := rfl
@[simp] theorem isBlob_writeUvarint (v : UInt64) : (writeUvarint tag v).isBlob = false := rfl
@[simp] theorem isBlob_writeCanonBool (b : Bool) : (writeCanonBool tag b).isBlob = false := rfl

end tags

theorem signPayload_tag_ge (p : Payload GoString t) : ∀ f ∈ signPayload p, 100 ≤ f.tag := by
  cases p
  case post =>
    simp only [signPayload, appendPostPayload, forall_mem_append, forall_mem_map]
    refine ⟨by simp, by simp, ?_⟩
    split <;> simp
  case subscribe =>
    simp only [signPayload, appendSubscribePayload, forall_mem_cons, forall_mem_append]
    refine ⟨by simp, ?_, ?_⟩ <;> split <;> simp
  all_goals simp [signPayload, writeRepeatedString]

theorem signPayload_tag_ne (p : Payload GoString t) {tag : UInt8} (htag : tag < 100) :
    ∀ f ∈ signPayload p, f.tag ≠ tag := by
  intro f hf he
  exact absurd (signPayload_tag_ge p f hf) (by rwa [he, UInt8.not_le])

/-- The proof-of-work bytes are the signature bytes without field 5, which is written
once. -/
theorem RelayMessage.powBytes_eq (m : RelayMessage.OnChain) :
    (m.signWrites.filter fun f => f.tag = 5) = [writeUvarint 5 m.env.pow] ∧
    m.powBytes = if m.type = .setAutoRenewal then none
      else some (canonBuf m.type.name (m.signWrites.filter fun f => f.tag ≠ 5)) := by
  have hne : ∀ f ∈ signPayload m.payload, f.tag ≠ 5 := signPayload_tag_ne m.payload (by decide)
  constructor
  · have hpay : (signPayload m.payload).filter (fun f => f.tag = 5) = [] := by
      rw [filter_eq_nil_iff]
      intro f hf
      simpa using hne f hf
    simp [RelayMessage.signWrites, hpay, signEnvelope]
  · have hpay : (signPayload m.payload).filter (fun f => f.tag ≠ 5) = signPayload m.payload := by
      rw [filter_eq_self]
      intro f hf
      simpa using hne f hf
    have henv : (signEnvelope m.env).filter (fun f => f.tag ≠ 5) = powEnvelope m.env := by
      simp [signEnvelope, powEnvelope]
    rw [RelayMessage.signWrites, filter_append, hpay, henv, RelayMessage.powBytes,
      powPayload_eq]
    split <;> rfl

/-! ## What the writes determine -/

section writes

variable {tag : UInt8}

@[simp] theorem writeString_inj {s s' : GoString} :
    writeString tag s = writeString tag s' ↔ s = s' := by
  simp [writeString, GoString.ext_iff]

@[simp] theorem writeUvarint_inj {v v' : UInt64} :
    writeUvarint tag v = writeUvarint tag v' ↔ v = v' := by
  simp [writeUvarint, UInt64.toNat_inj]

@[simp] theorem writeCanonBool_inj {b b' : Bool} :
    writeCanonBool tag b = writeCanonBool tag b' ↔ b = b' := by
  cases b <;> cases b' <;> simp [writeCanonBool]

theorem writeString_injective (tag : UInt8) : Function.Injective (writeString tag) :=
  fun _ _ => writeString_inj.mp

end writes

theorem toUInt32_inj {d d' : Int32} : d.toUInt32 = d'.toUInt32 ↔ d = d' := by
  refine ⟨fun h => ?_, fun h => by rw [h]⟩
  simpa using congrArg UInt32.toInt32 h

theorem toUInt64_inj {id id' : Int64} : id.toUInt64 = id'.toUInt64 ↔ id = id' := by
  refine ⟨fun h => ?_, fun h => by rw [h]⟩
  simpa using congrArg UInt64.toInt64 h

theorem int32_toUInt64_inj {m m' : Int32} : m.toInt64.toUInt64 = m'.toInt64.toUInt64 ↔ m = m' := by
  refine ⟨fun h => ?_, fun h => by rw [h]⟩
  have h := congrArg (fun x => x.toInt64.toInt) h
  simpa [Int32.toInt_inj] using h

theorem appendPostPayload_kinds (target community title content tag : GoString)
    (media : List GoString) (version : UInt32) :
    ∀ f ∈ appendPostPayload target community title content tag media version,
      f.isBlob = (f.tag != 106) := by
  simp only [appendPostPayload, forall_mem_append, forall_mem_map]
  refine ⟨by simp, by simp, ?_⟩
  split <;> simp

theorem appendSubscribePayload_kinds (level : UInt32) (target : GoString) (count : UInt32) :
    ∀ f ∈ appendSubscribePayload level target count, f.isBlob = (f.tag == 101) := by
  simp only [appendSubscribePayload, forall_mem_cons, forall_mem_append]
  refine ⟨by simp, ?_, ?_⟩ <;> split <;> simp

theorem sameKinds_of_layout {fs gs : List Field} (layout : UInt8 → Bool)
    (hf : ∀ f ∈ fs, f.isBlob = layout f.tag) (hg : ∀ g ∈ gs, g.isBlob = layout g.tag) :
    SameKinds fs gs := by
  intro f hfmem g hgmem htag
  rw [hf f hfmem, hg g hgmem, htag]

/-- Within a message type every tag has one kind. -/
theorem signPayload_sameKinds (p q : Payload GoString t) :
    SameKinds (signPayload p) (signPayload q) := by
  cases p <;> cases q
  case post.post =>
    exact sameKinds_of_layout (· != 106) (appendPostPayload_kinds _ _ _ _ _ _ _)
      (appendPostPayload_kinds _ _ _ _ _ _ _)
  case subscribe.subscribe =>
    exact sameKinds_of_layout (· == 101) (appendSubscribePayload_kinds _ _ _)
      (appendSubscribePayload_kinds _ _ _)
  all_goals simp [SameKinds, signPayload, writeRepeatedString]

theorem optional_uint_inj {tag : UInt8} {v v' : UInt32}
    (h : (if v ≠ 0 then [writeUvarint tag v.toUInt64] else []) =
      if v' ≠ 0 then [writeUvarint tag v'.toUInt64] else []) : v = v' := by
  by_cases hv : v = 0 <;> by_cases hv' : v' = 0 <;> simp_all [UInt32.toUInt64_inj]

theorem optional_string_inj {tag : UInt8} {s s' : GoString}
    (h : (if s.data ≠ [] then [writeString tag s] else []) =
      if s'.data ≠ [] then [writeString tag s'] else []) : s = s' := by
  by_cases hs : s.data = [] <;> by_cases hs' : s'.data = [] <;> simp_all [GoString.ext_iff]

theorem appendPostPayload_inj {target community title content tag : GoString}
    {media : List GoString} {version : UInt32} {target' community' title' content' tag' : GoString}
    {media' : List GoString} {version' : UInt32} :
    appendPostPayload target community title content tag media version =
      appendPostPayload target' community' title' content' tag' media' version' ↔
    target = target' ∧ community = community' ∧ title = title' ∧ content = content' ∧ tag = tag' ∧
      media = media' ∧ version = version' := by
  refine ⟨fun h => ?_, fun h => by simp only [h]⟩
  simp only [appendPostPayload, cons_append, nil_append, List.cons.injEq,
    writeString_inj] at h
  obtain ⟨h₁, h₂, h₃, h₄, h₅, htail⟩ := h
  have hversion : ∀ v : UInt32, ∀ f ∈ (if v ≠ 0 then [writeUvarint 106 v.toUInt64] else []),
      ¬ f.isBlob = true := by
    intro v
    split <;> simp
  obtain ⟨hmedia, hver⟩ := append_inj_of_split (P := fun f : Field => f.isBlob = true)
    (by simp) (by simp) (hversion version) (hversion version') htail
  refine ⟨h₁, h₂, h₃, h₄, h₅, map_injective_iff.mpr (writeString_injective 105) hmedia,
    optional_uint_inj hver⟩

theorem appendSubscribePayload_inj {level level' count count' : UInt32}
    {target target' : GoString} :
    appendSubscribePayload level target count = appendSubscribePayload level' target' count' ↔
    level = level' ∧ target = target' ∧ count = count' := by
  refine ⟨fun h => ?_, fun h => by simp only [h]⟩
  simp only [appendSubscribePayload, List.cons.injEq, writeUvarint_inj, UInt32.toUInt64_inj] at h
  obtain ⟨hlevel, htail⟩ := h
  have htarget : ∀ s : GoString, ∀ f ∈ (if s.data ≠ [] then [writeString 101 s] else []),
      f.isBlob = true := by
    intro s
    split <;> simp
  have hcount : ∀ v : UInt32, ∀ f ∈ (if v ≠ 0 then [writeUvarint 102 v.toUInt64] else []),
      ¬ f.isBlob = true := by
    intro v
    split <;> simp
  obtain ⟨htar, hcnt⟩ := append_inj_of_split (P := fun f : Field => f.isBlob = true)
    (htarget target) (htarget target') (hcount count) (hcount count') htail
  exact ⟨hlevel, optional_string_inj htar, optional_uint_inj hcnt⟩

theorem signPayload_injective {p q : Payload GoString t}
    (h : signPayload p = signPayload q) : p = q := by
  cases p <;> cases q
  case post.post => simpa only [signPayload, appendPostPayload_inj, Payload.post.injEq] using h
  case subscribe.subscribe =>
    simpa only [signPayload, appendSubscribePayload_inj, Payload.subscribe.injEq] using h
  case edit.edit =>
    simpa [signPayload, writeRepeatedString, (writeString_injective _).list_map.eq_iff] using h
  case claimCreatorRewards.claimCreatorRewards =>
    have hinj : Function.Injective fun id : Int64 => writeUvarint 100 id.toUInt64 := by
      intro a b hab
      simpa [toUInt64_inj] using hab
    simpa [signPayload, hinj.list_map.eq_iff] using h
  all_goals simpa [signPayload, int32_toUInt64_inj, toUInt32_inj, UInt32.toUInt64_inj] using h

/-! ## Reading a message back -/

theorem nameBytes_injective : Function.Injective fun t : MsgType => textBytes t.name := by
  have hnodup : (MsgType.prototypes.map fun t => textBytes t.name).Nodup := by decide +kernel
  intro t t' h
  exact inj_on_of_nodup_map hnodup t.mem_prototypes t'.mem_prototypes h

theorem zero_notMem_name (t : MsgType) : (0x00 : UInt8) ∉ textBytes t.name := by
  have hall : ∀ t ∈ MsgType.prototypes, (0x00 : UInt8) ∉ textBytes t.name := by decide +kernel
  exact hall t t.mem_prototypes

/-- The name can be read off the front: it ends with the first zero byte. -/
theorem canonBuf_append_inj {t' : MsgType} {writes writes' : List Field} {xs ys : Bytes}
    (h : canonBuf t.name writes ++ xs = canonBuf t'.name writes' ++ ys) :
    t = t' ∧ encodeAll writes ++ xs = encodeAll writes' ++ ys := by
  simp only [canonBuf, newCanonWriter, append_assoc, append_cancel_left_eq,
    singleton_append] at h
  obtain ⟨hname, htail⟩ := append_stop_inj (zero_notMem_name t) (zero_notMem_name t') h
  exact ⟨nameBytes_injective hname, htail⟩

theorem signEnvelope_shape (e e' : Envelope) :
    (signEnvelope e).map (fun f => (f.tag, f.isBlob)) =
      (signEnvelope e').map fun f => (f.tag, f.isBlob) := rfl

theorem powEnvelope_shape (e e' : Envelope) :
    (powEnvelope e).map (fun f => (f.tag, f.isBlob)) =
      (powEnvelope e').map fun f => (f.tag, f.isBlob) := rfl

theorem payload_append_inj {p q : Payload GoString t} {xs ys : Bytes}
    (hxs : EndsAt (signPayload q) xs) (hys : EndsAt (signPayload p) ys)
    (h : encodeAll (signPayload p) ++ xs = encodeAll (signPayload q) ++ ys) : p = q ∧ xs = ys := by
  obtain ⟨hp, htail⟩ := encodeAll_append_inj (signPayload_sameKinds p q) hxs hys h
  exact ⟨signPayload_injective hp, htail⟩

variable {m : RelayMessage.OnChain}

theorem RelayMessage.powInput_eq {input : Bytes} (h : m.powInput = some input) :
    powGuess (canonBuf m.type.name (powEnvelope m.env ++ signPayload m.payload)) m.env.pow =
      input := by
  rw [RelayMessage.powInput, RelayMessage.powBytes, powPayload_eq] at h
  split at h
  · cases h
  · exact Option.some.inj h

theorem signBytes_inj {m' : RelayMessage.OnChain} (h : m.signBytes = m'.signBytes) :
    m.unsigned = m'.unsigned := by
  obtain ⟨t, e, p⟩ := m
  obtain ⟨t', e', p'⟩ := m'
  have h : canonBuf t.name (signEnvelope e ++ signPayload p) ++ [] =
      canonBuf t'.name (signEnvelope e' ++ signPayload p') ++ [] := by
    rw [append_nil, append_nil]
    exact h
  obtain ⟨rfl, h⟩ := canonBuf_append_inj h
  rw [encodeAll_append, encodeAll_append, append_assoc, append_assoc] at h
  obtain ⟨henv, hpay⟩ := encodeAll_append_inj_of_shape (signEnvelope_shape e e') h
  obtain ⟨rfl, -⟩ := payload_append_inj (endsAt_nil _) (endsAt_nil _) hpay
  simp only [signEnvelope, List.cons.injEq, writeString_inj, writeUvarint_inj] at henv
  simp only [RelayMessage.unsigned, henv]

theorem powInput_inj {m' : RelayMessage.OnChain} {input : Bytes} (h : m.powInput = some input)
    (h' : m'.powInput = some input) : m.unsigned = m'.unsigned := by
  obtain ⟨t, e, p⟩ := m
  obtain ⟨t', e', p'⟩ := m'
  have h := (RelayMessage.powInput_eq h).trans (RelayMessage.powInput_eq h').symm
  obtain ⟨rfl, h⟩ := canonBuf_append_inj h
  rw [encodeAll_append, encodeAll_append, append_assoc, append_assoc] at h
  obtain ⟨henv, hpay⟩ := encodeAll_append_inj_of_shape (powEnvelope_shape e e') h
  obtain ⟨rfl, hproof⟩ := payload_append_inj
    (fun f hf => by simpa using (signPayload_tag_ne _ (by decide) f hf).symm)
    (fun f hf => by simpa using (signPayload_tag_ne _ (by decide) f hf).symm) hpay
  have hproof : e.pow = e'.pow := UInt64.toNat_inj.mp (uvarint_inj (List.cons.inj hproof).2)
  simp only [powEnvelope, List.cons.injEq, writeString_inj, writeUvarint_inj] at henv
  simp only [RelayMessage.unsigned, henv, hproof]

theorem canonical_bytes_determine_message (m m' : RelayMessage.OnChain) :
    (m.signBytes = m'.signBytes ↔ m.unsigned = m'.unsigned) ∧
    (∀ input, m.powInput = some input → m'.powInput = some input → m.unsigned = m'.unsigned) := by
  refine ⟨⟨signBytes_inj, fun h => ?_⟩, fun _ => powInput_inj⟩
  -- The signature bytes do not read the two fields that `unsigned` blanks.
  have hblank : ∀ m : RelayMessage.OnChain, m.unsigned.signBytes = m.signBytes := fun _ => rfl
  rw [← hblank m, ← hblank m', h]

/-- Two votes that differ only in the relaying node. -/
def voteBy (authority : GoString) (direction : Int32) : RelayMessage.OnChain where
  type := .vote
  env :=
    { authority, pubkey := ⟨[2, 7], by decide⟩, blockHash := ⟨[9], by decide⟩, difficulty := 3,
      pow := 300, timestamp := 1700000000000, nonce := 8, signature := ⟨[], GoString.nil_fits⟩ }
  payload := .vote ⟨[97], by decide⟩ direction

theorem canonical_bytes_determine_message_vote :
    (∃ input, (voteBy ⟨[1], by decide⟩ (-1)).powInput = some input ∧
      (voteBy ⟨[2], by decide⟩ (-1)).powInput = some input) ∧
    (voteBy ⟨[1], by decide⟩ (-1)).unsigned = (voteBy ⟨[2], by decide⟩ (-1)).unsigned := by
  refine ⟨⟨_, rfl, rfl⟩, ?_⟩
  exact (canonical_bytes_determine_message (voteBy ⟨[1], by decide⟩ (-1))
    (voteBy ⟨[2], by decide⟩ (-1))).2 _ rfl rfl

end MirageNode
