import MirageNode.Lib.ByteKeys
import MirageNode.RelayMessage

/-!
# Store keys

The keys of `types/kv.go`. Each kind of record has a text of its own and a layout, the
components that follow the text; a key is a kind with a value for every component. The
prefix constructors give values for the first components only.

Keys can be read back from their bytes (`StoreKey.bytes_injective`), a prefix is a byte
prefix of exactly the keys that start with its components (`KeyPrefix.isPrefix_iff`), and
no key is in the range of a prefix without starting with it (`KeyPrefix.inRange_iff`).
-/

namespace MirageNode

open ByteKeys List

/-! ## Components -/

inductive KeyField where
  | addr | text | id | time | hash | byte
deriving DecidableEq, Repr

/-- What a component holds, with account addresses of `n` bytes and hashes of `m`. A text
is below the length at which `lp` panics. -/
def KeyField.Value (n m : ℕ) : KeyField → Type
  | .addr => {b : List UInt8 // b.length = n}
  | .text => {b : List UInt8 // b.length < 65536}
  | .id => UInt64
  | .time => Int64
  | .hash => {b : List UInt8 // b.length = m}
  | .byte => UInt8

/-- Big-endian. -/
def u64 (v : UInt64) : List UInt8 :=
  [v >>> 56, v >>> 48, v >>> 40, v >>> 32, v >>> 24, v >>> 16, v >>> 8, v].map UInt64.toUInt8

def i64 (v : Int64) : List UInt8 := u64 v.toUInt64

section

variable {n m : ℕ}

def KeyField.part : (f : KeyField) → f.Value n m → Part
  | .addr, a => .raw a.1
  | .text, s => .counted s.1
  | .id, v => .raw (u64 v)
  | .time, v => .raw (i64 v)
  | .hash, h => .raw h.1
  | .byte, b => .raw [b]

/-- The width of the components other than texts. -/
def KeyField.size (n m : ℕ) : KeyField → ℕ
  | .addr => n
  | .text => 0
  | .id => 8
  | .time => 8
  | .hash => m
  | .byte => 1

def KeyField.width (n m : ℕ) (f : KeyField) : Width :=
  if f = .text then .counted else .bytes (f.size n m)

theorem KeyField.part_fits (f : KeyField) (v : f.Value n m) : (f.part v).Fits (f.width n m) :=
  match f, v with
  | .addr, a => a.2
  | .text, s => s.2
  | .id, _ => rfl
  | .time, _ => rfl
  | .hash, h => h.2
  | .byte, _ => rfl

theorem u64_injective : Function.Injective u64 := by
  intro v w h
  simp only [u64, map_cons, List.cons.injEq] at h
  obtain ⟨h₇, h₆, h₅, h₄, h₃, h₂, h₁, h₀, -⟩ := h
  have hv := v.toNat_lt
  have hw := w.toNat_lt
  -- The eight bytes are the digits of the number in base 256.
  have digit : ∀ {x y : UInt64} {s : UInt64}, (x >>> s).toUInt8 = (y >>> s).toUInt8 →
      x.toNat / 2 ^ (s.toNat % 64) % 256 = y.toNat / 2 ^ (s.toNat % 64) % 256 := by
    intro x y s hxy
    have hxy := congrArg UInt8.toNat hxy
    simpa [Nat.shiftRight_eq_div_pow] using hxy
  have d₇ := digit h₇
  have d₆ := digit h₆
  have d₅ := digit h₅
  have d₄ := digit h₄
  have d₃ := digit h₃
  have d₂ := digit h₂
  have d₁ := digit h₁
  have d₀ : v.toNat % 256 = w.toNat % 256 := by
    have h₀ := congrArg UInt8.toNat h₀
    simpa using h₀
  simp only [UInt64.reduceToNat, Nat.reduceMod, Nat.reducePow] at d₇ d₆ d₅ d₄ d₃ d₂ d₁
  apply UInt64.toNat_inj.mp
  omega

theorem i64_injective : Function.Injective i64 := fun _ _ h =>
  congrArg Int64.ofUInt64 (u64_injective h)

theorem KeyField.part_injective (f : KeyField) :
    Function.Injective (f.part : f.Value n m → Part) := by
  intro v w h
  cases f with
  | addr => exact Subtype.ext (Part.raw.inj h)
  | text => exact Subtype.ext (Part.counted.inj h)
  | id => exact u64_injective (Part.raw.inj h)
  | time => exact i64_injective (Part.raw.inj h)
  | hash => exact Subtype.ext (Part.raw.inj h)
  | byte => exact head_eq_of_cons_eq (Part.raw.inj h)

/-- A value for every component of a layout. -/
inductive Values (n m : ℕ) : List KeyField → Type
  | nil : Values n m []
  | cons {f : KeyField} {fs : List KeyField} (v : f.Value n m) (vs : Values n m fs) :
      Values n m (f :: fs)

namespace Values

def parts {fs : List KeyField} : Values n m fs → List Part
  | nil => []
  | @cons _ _ f _ v vs => f.part v :: vs.parts

def take {fs : List KeyField} : (i : ℕ) → Values n m fs → Values n m (fs.take i)
  | 0, _ => nil
  | _ + 1, nil => nil
  | i + 1, cons v vs => cons v (vs.take i)

theorem parts_fit {fs : List KeyField} (vs : Values n m fs) :
    List.Forall₂ Part.Fits vs.parts (fs.map (KeyField.width n m)) := by
  induction vs with
  | nil => exact .nil
  | @cons f _ v _ ih => exact .cons (f.part_fits v) ih

theorem parts_injective {fs : List KeyField} :
    Function.Injective (parts : Values n m fs → List Part) := by
  intro vs ws h
  induction vs with
  | nil =>
    cases ws
    rfl
  | @cons f _ v vs ih =>
    obtain _ | ⟨w, ws⟩ := ws
    obtain ⟨hhead, htail⟩ := List.cons.inj h
    rw [f.part_injective hhead, ih htail]

theorem parts_take {fs : List KeyField} (vs : Values n m fs) (i : ℕ) :
    (vs.take i).parts = vs.parts.take i := by
  induction vs generalizing i with
  | nil => cases i <;> rfl
  | @cons f _ v _ ih =>
    cases i with
    | zero => rfl
    | succ i => exact congrArg (f.part v :: ·) (ih i)

end Values

end

/-! ## Kinds of records -/

/-- The constructors of `types/kv.go`, `.join` for `KeyJoin`, with the single keys last. -/
inductive KeyKind where
  | community | communitySupport | communityFounder | communityHistory | communityHistNext | join
  | joinRev | joinCount | blockCommunity | blockCommunityIdx | blockCommunityCount
  | blockCommunityNext | curationTeam | curationTeamNext | curationTeamName | curationTeamMember
  | curationTeamUser | curationTeamUserCount | curationInvite | curationInviteRev
  | curationInviteCount | curationTeamHist | curationTeamHistNext | curationEligible
  | curationSupportOrd | curationCreated | hiddenPost | hiddenUser | threadLock | threadLockCount
  | curationPostTag | curationPrune | postMeta | voteDir | upvoteReserved | replyReserved
  | engagement | engagementCount | engagementValid | creatorEpoch | creatorEpochOpen
  | creatorEpochSettle | creatorEpochDeadline | creatorEpochPrune | epochTarget | targetEpoch
  | targetTotal | epochCreatorAccrual | creatorEpochIdx | epochClaim | tranche | creatorStreamEnd
  | tranchePayer | trancheRecipient | subscriberQuota | subRenewalQueue | subRenewalState
  | communitySeq | curationPruneNext | postSeq | creatorClock | creatorLiability | creatorSurplus
  | creatorSchedule | creatorStreamRate | creatorStreamAcc | creatorStreamPaid | creatorStreamTs
  | trancheSeq
deriving DecidableEq, Repr

def KeyKind.all : List KeyKind := (List.range 69).map .ofNat

theorem KeyKind.mem_all (kind : KeyKind) : kind ∈ KeyKind.all := by
  cases kind <;> decide

/-- The `Pfx` text of a kind. -/
def KeyKind.text : KeyKind → String
  | .community => "c|"
  | .communitySupport => "cc|"
  | .communityFounder => "cf|"
  | .communityHistory => "ch|"
  | .communityHistNext => "chnext|"
  | .join => "jc|"
  | .joinRev => "cj|"
  | .joinCount => "jcc|"
  | .blockCommunity => "bc|"
  | .blockCommunityIdx => "bci|"
  | .blockCommunityCount => "bcc|"
  | .blockCommunityNext => "bcnext|"
  | .curationTeam => "ct|"
  | .curationTeamNext => "ctnext|"
  | .curationTeamName => "ctname|"
  | .curationTeamMember => "ctm|"
  | .curationTeamUser => "ctu|"
  | .curationTeamUserCount => "ctuc|"
  | .curationInvite => "cti|"
  | .curationInviteRev => "ctir|"
  | .curationInviteCount => "ctirc|"
  | .curationTeamHist => "cth|"
  | .curationTeamHistNext => "cthnext|"
  | .curationEligible => "cte|"
  | .curationSupportOrd => "cts|"
  | .curationCreated => "ctcreated|"
  | .hiddenPost => "chp|"
  | .hiddenUser => "chu|"
  | .threadLock => "chl|"
  | .threadLockCount => "chlc|"
  | .curationPostTag => "cpt|"
  | .curationPrune => "ctp|"
  | .postMeta => "pm|"
  | .voteDir => "vd|"
  | .upvoteReserved => "vur|"
  | .replyReserved => "rr|"
  | .engagement => "ev|"
  | .engagementCount => "evc|"
  | .engagementValid => "evvalid|"
  | .creatorEpoch => "ce|"
  | .creatorEpochOpen => "ceopen|"
  | .creatorEpochSettle => "cesettle|"
  | .creatorEpochDeadline => "cedeadline|"
  | .creatorEpochPrune => "ceprune|"
  | .epochTarget => "ect|"
  | .targetEpoch => "ectarget|"
  | .targetTotal => "targettotal|"
  | .epochCreatorAccrual => "eca|"
  | .creatorEpochIdx => "ecacreator|"
  | .epochClaim => "eclaim|"
  | .tranche => "tranche|"
  | .creatorStreamEnd => "cstrend|"
  | .tranchePayer => "tranchepayer|"
  | .trancheRecipient => "trancherecipient|"
  | .subscriberQuota => "sq|"
  | .subRenewalQueue => "sr|"
  | .subRenewalState => "sra|"
  | .communitySeq => "communityseq"
  | .curationPruneNext => "ctpnext"
  | .postSeq => "postseq"
  | .creatorClock => "creator_clock"
  | .creatorLiability => "creator_liability"
  | .creatorSurplus => "creator_activation_surplus"
  | .creatorSchedule => "creator_schedule"
  | .creatorStreamRate => "creator_stream_rate"
  | .creatorStreamAcc => "creator_stream_acc"
  | .creatorStreamPaid => "creator_stream_paid"
  | .creatorStreamTs => "creator_stream_ts"
  | .trancheSeq => "trancheseq"

/-- The components that follow the text. Epochs and times go through `i64`, ids, sequence
numbers and generations through `u64`. -/
def KeyKind.fields : KeyKind → List KeyField
  | .community => [.text]
  | .communitySupport => [.text]
  | .communityFounder => [.addr, .text]
  | .communityHistory => [.text, .id]
  | .communityHistNext => [.text]
  | .join => [.addr, .text]
  | .joinRev => [.text, .addr]
  | .joinCount => [.addr]
  | .blockCommunity => [.addr, .id, .text]
  | .blockCommunityIdx => [.addr, .text]
  | .blockCommunityCount => [.addr]
  | .blockCommunityNext => [.addr]
  | .curationTeam => [.text, .id]
  | .curationTeamNext => [.text]
  | .curationTeamName => [.text, .text]
  | .curationTeamMember => [.text, .id, .addr]
  | .curationTeamUser => [.addr, .text]
  | .curationTeamUserCount => [.addr]
  | .curationInvite => [.text, .id, .addr]
  | .curationInviteRev => [.addr, .text, .id]
  | .curationInviteCount => [.addr]
  | .curationTeamHist => [.text, .id, .id]
  | .curationTeamHistNext => [.text, .id]
  | .curationEligible => [.text, .id, .id, .id]
  | .curationSupportOrd => [.text, .id, .id, .id]
  | .curationCreated => [.text, .addr]
  | .hiddenPost => [.text, .id, .hash]
  | .hiddenUser => [.text, .id, .addr]
  | .threadLock => [.text, .id, .hash]
  | .threadLockCount => [.text, .id, .hash]
  | .curationPostTag => [.text, .id, .hash]
  | .curationPrune => [.id, .text, .id]
  | .postMeta => [.hash]
  | .voteDir => [.addr, .hash]
  | .upvoteReserved => [.addr, .hash]
  | .replyReserved => [.addr, .hash]
  | .engagement => [.time, .addr, .byte, .hash]
  | .engagementCount => [.time, .addr]
  | .engagementValid => [.time, .addr, .byte, .hash]
  | .creatorEpoch => [.time]
  | .creatorEpochOpen => [.time]
  | .creatorEpochSettle => [.time]
  | .creatorEpochDeadline => [.time, .time]
  | .creatorEpochPrune => [.time]
  | .epochTarget => [.time, .hash]
  | .targetEpoch => [.hash, .time]
  | .targetTotal => [.hash]
  | .epochCreatorAccrual => [.time, .addr]
  | .creatorEpochIdx => [.addr, .time]
  | .epochClaim => [.time, .addr]
  | .tranche => [.id]
  | .creatorStreamEnd => [.time, .id]
  | .tranchePayer => [.addr, .id]
  | .trancheRecipient => [.addr, .id]
  | .subscriberQuota => [.addr]
  | .subRenewalQueue => [.time, .addr, .time, .id]
  | .subRenewalState => [.addr]
  | .communitySeq => []
  | .curationPruneNext => []
  | .postSeq => []
  | .creatorClock => []
  | .creatorLiability => []
  | .creatorSurplus => []
  | .creatorSchedule => []
  | .creatorStreamRate => []
  | .creatorStreamAcc => []
  | .creatorStreamPaid => []
  | .creatorStreamTs => []
  | .trancheSeq => []

/-- Texts with which the keys outside `types/kv.go` begin, and the single keys among
them. -/
def otherTexts : List String :=
  ["profiles/", "usernames/", "relay_credits/", "subs/", "fu/", "ft/", "ea/", "bu/", "bp/", "bt/",
   "plist_", "envelope_nonce/", "envelope_nonce_expiry/", "recent_block_hashes",
   "reserved_profiles_bootstrapped", "block_supply_start", "block_supply_delta",
   "upgrade/v1.39.0/", "params", "pow_msg_count:", "current_difficulty", "consecutive_low_usage",
   "pow_cleanup_marker", "prev_difficulty", "last_diff_change_height"]

structure StoreKey (n m : ℕ) where
  kind : KeyKind
  values : Values n m kind.fields

def StoreKey.bytes {n m : ℕ} (k : StoreKey n m) : List UInt8 :=
  textBytes k.kind.text ++ encodeAll k.values.parts

/-- The prefix constructors, `.join` for `KeyJoinPrefix`; `.engagementCountEpoch` is the
prefix that `pruneEpochDetails` puts together itself. -/
inductive PrefixKind where
  | communityFounder | join | blockCommunity | curationTeam | curationTeamMember
  | curationTeamUser | curationInvite | curationInviteRev | curationSupportOrd | hiddenPost
  | hiddenUser | threadLock | curationPostTag | engagementEpoch | engagementCountEpoch
  | engagementValidEpoch | epochCreatorAccrual | epochTarget | creatorEpochIdx | tranchePayer
  | trancheRecipient
deriving DecidableEq, Repr

def PrefixKind.all : List PrefixKind := (List.range 21).map .ofNat

theorem PrefixKind.mem_all (kind : PrefixKind) : kind ∈ PrefixKind.all := by
  cases kind <;> decide

/-- The records the prefix is for. -/
def PrefixKind.record : PrefixKind → KeyKind
  | .communityFounder => .communityFounder
  | .join => .join
  | .blockCommunity => .blockCommunity
  | .curationTeam => .curationTeam
  | .curationTeamMember => .curationTeamMember
  | .curationTeamUser => .curationTeamUser
  | .curationInvite => .curationInvite
  | .curationInviteRev => .curationInviteRev
  | .curationSupportOrd => .curationSupportOrd
  | .hiddenPost => .hiddenPost
  | .hiddenUser => .hiddenUser
  | .threadLock => .threadLock
  | .curationPostTag => .curationPostTag
  | .engagementEpoch => .engagement
  | .engagementCountEpoch => .engagementCount
  | .engagementValidEpoch => .engagementValid
  | .epochCreatorAccrual => .epochCreatorAccrual
  | .epochTarget => .epochTarget
  | .creatorEpochIdx => .creatorEpochIdx
  | .tranchePayer => .tranchePayer
  | .trancheRecipient => .trancheRecipient

/-- How many components the prefix gives. -/
def PrefixKind.given : PrefixKind → ℕ
  | .curationTeamMember | .curationInvite | .hiddenPost
  | .hiddenUser | .threadLock | .curationPostTag => 2
  | _ => 1

structure KeyPrefix (n m : ℕ) where
  kind : PrefixKind
  values : Values n m (kind.record.fields.take kind.given)

def KeyPrefix.bytes {n m : ℕ} (p : KeyPrefix n m) : List UInt8 :=
  textBytes p.kind.record.text ++ encodeAll p.values.parts

/-- The key is of the prefix's kind and its first components are those given. -/
def KeyPrefix.Owns {n m : ℕ} (p : KeyPrefix n m) (k : StoreKey n m) : Prop :=
  ∃ values : Values n m p.kind.record.fields,
    k = ⟨p.kind.record, values⟩ ∧ values.take p.kind.given = p.values

/-! ## Texts -/

def keyTexts : List String := KeyKind.all.map KeyKind.text ++ otherTexts

theorem KeyKind.text_mem (kind : KeyKind) : kind.text ∈ keyTexts :=
  mem_append_left _ (mem_map_of_mem kind.mem_all)

theorem KeyKind.text_injective : Function.Injective KeyKind.text := by
  have hnodup : (KeyKind.all.map KeyKind.text).Nodup := by decide +kernel
  exact fun a b h => inj_on_of_nodup_map hnodup a.mem_all b.mem_all h

/-- No text is the beginning of another. -/
theorem keyTexts_prefixFree : ∀ s ∈ keyTexts, ∀ t ∈ keyTexts,
    textBytes s <+: textBytes t → s = t := by
  decide +kernel

/-- The byte after `|`, and full bytes, are in no text. -/
theorem keyTexts_below : ∀ s ∈ keyTexts, 125 ∉ textBytes s ∧ 255 ∉ textBytes s := by
  decide +kernel

theorem eq_of_textBytes_append {s t : String} (hs : s ∈ keyTexts) (ht : t ∈ keyTexts)
    {u v : List UInt8} (h : textBytes s ++ u = textBytes t ++ v) : s = t := by
  rcases prefix_or_prefix_of_prefix ⟨u, h⟩ (prefix_append _ v) with hst | hts
  · exact keyTexts_prefixFree s hs t ht hst
  · exact (keyTexts_prefixFree t ht s hs hts).symm

theorem PrefixKind.text_ends (kind : PrefixKind) :
    ∃ q, textBytes kind.record.text = q ++ [124] := by
  have h : ∀ kind ∈ PrefixKind.all, textBytes kind.record.text =
      (textBytes kind.record.text).dropLast ++ [124] := by decide +kernel
  exact ⟨_, h kind kind.mem_all⟩

/-! ## Keys and prefixes -/

section

variable {n m : ℕ}

/-- Keys of different kinds differ, and keys of one kind differ unless all their
components agree. -/
theorem StoreKey.bytes_injective :
    Function.Injective (StoreKey.bytes : StoreKey n m → List UInt8) := by
  rintro ⟨kind, values⟩ ⟨kind', values'⟩ h
  obtain rfl := KeyKind.text_injective (eq_of_textBytes_append kind.text_mem kind'.text_mem h)
  have hparts : encodeAll values.parts ++ [] = encodeAll values'.parts ++ [] := by
    simpa using append_cancel_left h
  obtain rfl := Values.parts_injective
    ((encodeAll_append_inj values.parts_fit values'.parts_fit).mp hparts).1
  rfl

/-- The first components of a layout against a prefix of it. -/
theorem Values.isPrefix_iff {fs : List KeyField} {i : ℕ} (ps : Values n m (fs.take i))
    (vs : Values n m fs) : encodeAll ps.parts <+: encodeAll vs.parts ↔ vs.take i = ps := by
  have hsplit : vs.parts = (vs.take i).parts ++ vs.parts.drop i := by
    rw [parts_take, take_append_drop]
  rw [hsplit, encodeAll_isPrefix_iff ps.parts_fit (vs.take i).parts_fit]
  exact ⟨fun h => (parts_injective h).symm, fun h => by rw [h]⟩

theorem KeyPrefix.isPrefix_iff (p : KeyPrefix n m) (k : StoreKey n m) :
    p.bytes <+: k.bytes ↔ p.Owns k := by
  constructor
  · obtain ⟨kind, values⟩ := k
    rintro ⟨rest, hrest⟩
    have htext := eq_of_textBytes_append p.kind.record.text_mem kind.text_mem
      ((append_assoc ..).symm.trans hrest)
    obtain rfl := KeyKind.text_injective htext
    rw [bytes, StoreKey.bytes, append_assoc, append_cancel_left_eq] at hrest
    exact ⟨values, rfl, (p.values.isPrefix_iff values).mp ⟨rest, hrest⟩⟩
  · rintro ⟨values, rfl, htake⟩
    rw [bytes, StoreKey.bytes, prefix_append_right_inj]
    exact (p.values.isPrefix_iff values).mpr htake

/-- Counting a prefix up never leaves its text. -/
theorem KeyPrefix.eq_text_of_short (p : KeyPrefix n m) {t : String} (ht : t ∈ keyTexts)
    {rest : List UInt8} (h : Short p.bytes (textBytes t ++ rest)) : t = p.kind.record.text := by
  obtain ⟨q, b, r, j, hp, hb, hk, -⟩ := h
  have hmem := p.kind.record.text_mem
  rcases append_eq_append_iff.mp hp with ⟨q', hq, -⟩ | ⟨last, htext, hlast⟩
  · -- The byte counted up is one of a component, so the key still starts with the text.
    rw [hq, append_assoc] at hk
    exact eq_of_textBytes_append ht hmem hk
  · obtain ⟨front, hfront⟩ := p.kind.text_ends
    cases last with
    | nil =>
      rw [append_nil] at htext
      rw [← htext] at hk
      exact eq_of_textBytes_append ht hmem hk
    | cons c last =>
      -- It is the closing bar, and the byte after the bar is in no text.
      obtain ⟨rfl, hfull⟩ := List.cons.inj hlast
      have hnil : last = [] := by
        rw [eq_nil_iff_forall_not_mem]
        intro x hx
        have h255 : x = 255 :=
          eq_of_mem_replicate (hfull ▸ mem_append_left _ hx : x ∈ List.replicate r 255)
        refine (keyTexts_below _ hmem).2 ?_
        rw [htext]
        simp [← h255, hx]
      subst hnil
      obtain ⟨rfl, hbar⟩ := append_inj' (htext.symm.trans hfront) rfl
      obtain rfl : b = 124 := head_eq_of_cons_eq hbar
      rcases append_eq_append_iff.mp hk with ⟨more, hover, -⟩ | ⟨more, hover, hrest⟩
      · refine keyTexts_prefixFree t ht _ hmem ?_
        rw [htext, hover, append_assoc]
        exact prefix_append _ _
      · cases more with
        | nil =>
          refine keyTexts_prefixFree t ht _ hmem ?_
          rw [htext, hover, append_nil]
          exact prefix_append _ _
        | cons c more =>
          have hc : (124 : UInt8) + 1 = c := head_eq_of_cons_eq hrest
          refine absurd ?_ (keyTexts_below t ht).1
          rw [hover, ← hc]
          exact mem_append_right _ mem_cons_self

theorem PrefixKind.layout (kind : PrefixKind) :
    ∃ f fs, kind.record.fields.take kind.given = f :: fs ∧ KeyField.text ∉ fs := by
  have h : ∀ kind ∈ PrefixKind.all, ∃ f ∈ (kind.record.fields.take kind.given).head?,
      kind.record.fields.take kind.given = f :: (kind.record.fields.take kind.given).tail ∧
        KeyField.text ∉ (kind.record.fields.take kind.given).tail := by decide +kernel
  obtain ⟨f, -, hf⟩ := h kind kind.mem_all
  exact ⟨f, _, hf⟩

theorem map_width_of_text_notMem {fs : List KeyField} (h : KeyField.text ∉ fs) :
    fs.map (KeyField.width n m) = (fs.map (KeyField.size n m)).map Width.bytes := by
  rw [map_map]
  refine map_congr_left fun f hf => if_neg ?_
  rintro rfl
  exact h hf

theorem Values.length_le_of_le {fs tail : List KeyField} {f : KeyField} {i : ℕ}
    (hlayout : fs.take i = f :: tail) (htext : KeyField.text ∉ tail) (ps : Values n m (fs.take i))
    (vs : Values n m fs) (hle : encodeAll ps.parts ≤ encodeAll vs.parts) :
    (encodeAll ps.parts).length ≤ (encodeAll vs.parts).length := by
  have hsplit : vs.parts = (vs.take i).parts ++ vs.parts.drop i := by
    rw [parts_take, take_append_drop]
  have hps := ps.parts_fit
  have hvs := (vs.take i).parts_fit
  rw [hsplit] at hle ⊢
  generalize ps.parts = xs at hps hle ⊢
  generalize (vs.take i).parts = ys at hvs hle ⊢
  rw [hlayout, map_cons, map_width_of_text_notMem htext] at hps hvs
  obtain _ | ⟨hx, hxs⟩ := hps
  obtain _ | ⟨hy, hys⟩ := hvs
  exact ByteKeys.length_le_of_le hx hy hxs hys hle

/-- The range an iterator covers holds just the keys that start with the prefix. -/
theorem KeyPrefix.inRange_iff (p : KeyPrefix n m) (k : StoreKey n m) :
    InRange p.bytes k.bytes ↔ p.Owns k := by
  rw [← p.isPrefix_iff k]
  refine ⟨fun h => (isPrefix_or_short h).resolve_right fun hshort => ?_, inRange_of_isPrefix⟩
  obtain ⟨kind, values⟩ := k
  obtain rfl := KeyKind.text_injective (p.eq_text_of_short kind.text_mem hshort)
  obtain ⟨f, fs, hlayout, htext⟩ := p.kind.layout
  have hle : encodeAll p.values.parts ≤ encodeAll values.parts := append_le_append_iff.mp h.1
  have hlong := Values.length_le_of_le hlayout htext p.values values hle
  have hlt := hshort.length_lt
  simp only [bytes, StoreKey.bytes, length_append] at hlt
  omega

/-- No key of another part of the store is in the range. -/
theorem KeyPrefix.not_inRange_of_other (p : KeyPrefix n m) {t : String} (ht : t ∈ otherTexts)
    {k : List UInt8} (hk : textBytes t <+: k) : ¬ InRange p.bytes k := by
  intro h
  have hmem : t ∈ keyTexts := mem_append_right _ ht
  have hother : t ≠ p.kind.record.text := by
    have hne : ∀ t ∈ otherTexts, ∀ kind ∈ KeyKind.all, t ≠ kind.text := by decide +kernel
    exact hne t ht _ p.kind.record.mem_all
  obtain ⟨rest, rfl⟩ := hk
  refine hother ?_
  rcases isPrefix_or_short h with ⟨more, hover⟩ | hshort
  · rw [bytes, append_assoc] at hover
    exact (eq_of_textBytes_append p.kind.record.text_mem hmem hover).symm
  · exact p.eq_text_of_short hmem hshort

end

end MirageNode
