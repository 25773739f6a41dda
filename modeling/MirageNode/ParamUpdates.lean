import Mathlib.Data.List.DropRight
import Mathlib.Data.List.Perm.Basic
import MirageNode.Params

/-!
# Masked updates of the parameters

A proposal names the parameters it changes. `applyParamUpdates` runs the setter of each path in
turn on a copy of the stored parameters, and keeps the subscribers' relay limit, which is stored
twice, in step.

The copy is shallow: the tiers are pointers. The setter of the relay limit therefore writes into
the tier of the caller's stored parameters, or into that of the proposal once the proposal's
tiers are in place, and a mask that names both depends on the order
(`relay_limit_order_and_aliasing`). The result is what the set of paths says, and the memory is
left alone, exactly where that write changes nothing (`masked_update_iff_harmless`). All other
setters neither read nor write the relay limits, so that only the order of these two counts
(`setFields_relay`).
-/

namespace MirageNode

open Fallible List

/-! ## 1. Parameters in memory -/

/-- The parameters that a proposal may select and whose setter copies a number. -/
inductive PlainField
  | minDifficulty | powMessageWindow | powMessageLimit | powCalmPeriodDefinition
  | powCalmSequenceThreshold | powDifficultyAllowance | powDifficultyStep | mintInterval
  | mintQuantity | mintDynamicCreditCap | mintDynamicSplit | mintFloorSplit | blockHashWindow
  | minUsernameSize | maxUsernameSize | minCommunitySize | maxCommunitySize | subscriptionPeriod
  | subscriptionReserveBps | subscriptionCreatorBps | relayMinGasPrice | relayMaxGasFee
  | maxEnvelopeAge | maxCuratorsPerTeam | maxPendingCuratorInvitesPerTeam
  | maxPendingCuratorInvitesPerUser | maxCurationTeamNameLength
  | maxCurationTeamDescriptionLength | subscriptionTransitionsPerBlock
  | curationPruneKeysPerBlock | creatorEpochClosuresPerBlock | creatorSettlementRecordsPerBlock
  | creatorPruneKeysPerBlock | creatorClaimWindowDays | maxCreatorClaimEpochs
  | maxCreatorEngagementsPerEpoch | creatorEpochExpiriesPerBlock | subscriptionEarlyRenewalDays
  | subscriptionRenewalAttemptsPerBlock | maxSubscriptionPeriodsPerPurchase | creatorEpochSeconds
deriving DecidableEq, Repr

/-- Every parameter of that kind. -/
def PlainField.all : List PlainField := (List.range 41).map .ofNat

/-- The name of the parameter in the proto file. -/
def PlainField.path : PlainField → String
  | minDifficulty => "min_difficulty"
  | powMessageWindow => "pow_message_window"
  | powMessageLimit => "pow_message_limit"
  | powCalmPeriodDefinition => "pow_calm_period_definition"
  | powCalmSequenceThreshold => "pow_calm_sequence_threshold"
  | powDifficultyAllowance => "pow_difficulty_allowance"
  | powDifficultyStep => "pow_difficulty_step"
  | mintInterval => "mint_interval"
  | mintQuantity => "mint_quantity"
  | mintDynamicCreditCap => "mint_dynamic_credit_cap"
  | mintDynamicSplit => "mint_dynamic_split"
  | mintFloorSplit => "mint_floor_split"
  | blockHashWindow => "block_hash_window"
  | minUsernameSize => "min_username_size"
  | maxUsernameSize => "max_username_size"
  | minCommunitySize => "min_community_size"
  | maxCommunitySize => "max_community_size"
  | subscriptionPeriod => "subscription_period"
  | subscriptionReserveBps => "subscription_reserve_bps"
  | subscriptionCreatorBps => "subscription_creator_bps"
  | relayMinGasPrice => "relay_min_gas_price"
  | relayMaxGasFee => "relay_max_gas_fee"
  | maxEnvelopeAge => "max_envelope_age"
  | maxCuratorsPerTeam => "max_curators_per_team"
  | maxPendingCuratorInvitesPerTeam => "max_pending_curator_invites_per_team"
  | maxPendingCuratorInvitesPerUser => "max_pending_curator_invites_per_user"
  | maxCurationTeamNameLength => "max_curation_team_name_length"
  | maxCurationTeamDescriptionLength => "max_curation_team_description_length"
  | subscriptionTransitionsPerBlock => "subscription_transitions_per_block"
  | curationPruneKeysPerBlock => "curation_prune_keys_per_block"
  | creatorEpochClosuresPerBlock => "creator_epoch_closures_per_block"
  | creatorSettlementRecordsPerBlock => "creator_settlement_records_per_block"
  | creatorPruneKeysPerBlock => "creator_prune_keys_per_block"
  | creatorClaimWindowDays => "creator_claim_window_days"
  | maxCreatorClaimEpochs => "max_creator_claim_epochs"
  | maxCreatorEngagementsPerEpoch => "max_creator_engagements_per_epoch"
  | creatorEpochExpiriesPerBlock => "creator_epoch_expiries_per_block"
  | subscriptionEarlyRenewalDays => "subscription_early_renewal_days"
  | subscriptionRenewalAttemptsPerBlock => "subscription_renewal_attempts_per_block"
  | maxSubscriptionPeriodsPerPurchase => "max_subscription_periods_per_purchase"
  | creatorEpochSeconds => "creator_epoch_seconds"

/-- The parameters of type `double`, which are kept as bit patterns. -/
def PlainField.isDouble : PlainField → Bool
  | powDifficultyStep | mintDynamicSplit | mintFloorSplit => true
  | _ => false

/-- The keys of `paramFieldSetters`. -/
inductive ParamField
  | plain (f : PlainField)
  | subscriberDailyRelayLimit
  | tiers
  | awardConfigs
deriving DecidableEq, Repr

namespace ParamField

def all : List ParamField :=
  PlainField.all.map .plain ++ [.subscriberDailyRelayLimit, .tiers, .awardConfigs]

def path : ParamField → String
  | plain f => f.path
  | subscriberDailyRelayLimit => "subscriber_daily_relay_limit"
  | tiers => "tiers"
  | awardConfigs => "award_configs"

/-- The lookup in `paramFieldSetters`. -/
def ofPath (path : String) : Option ParamField := all.find? fun f => f.path = path

theorem mem_all (f : ParamField) : f ∈ all := by
  cases f with
  | plain f => exact mem_append_left _ (mem_map_of_mem (by cases f <;> decide))
  | subscriberDailyRelayLimit => exact mem_append_right _ (by decide)
  | tiers => exact mem_append_right _ (by decide)
  | awardConfigs => exact mem_append_right _ (by decide)

theorem path_of_ofPath {p : String} {f : ParamField} (h : ofPath p = some f) : f.path = p :=
  of_decide_eq_true (List.find?_some (p := fun f : ParamField => decide (f.path = p)) h)

/-- No two setters have one path. -/
theorem ofPath_path (f : ParamField) : ofPath f.path = some f := by
  have hall : ∀ f ∈ all, ofPath f.path = some f := by decide +kernel
  exact hall f f.mem_all

@[simp] theorem path_inj {f g : ParamField} : f.path = g.path ↔ f = g := by
  constructor
  · intro h
    exact Option.some.inj ((ofPath_path f).symm.trans (h ▸ ofPath_path g))
  · rintro rfl
    rfl

end ParamField

/-- The bits of a `float64` that is not a number. -/
def isNaN (bits : ℕ) : Bool := bits / 2 ^ 52 % 2 ^ 11 = 2047 && bits % 2 ^ 52 ≠ 0

/-- `==` of two `float64`, by their bits: NaN differs from itself and the zeros are equal. -/
def doubleEq (a b : ℕ) : Bool :=
  !isNaN a && !isNaN b && (a = b || (a % 2 ^ 63 = 0 && b % 2 ^ 63 = 0))

/-- All of `TierConfig`, with the bits of the vote weight. -/
structure TierRecord extends TierConfig where
  editingTimeMins : ℕ
  voteWeight : ℕ
  canHaveAvatar : Bool
  canHaveBanner : Bool
  canHaveFlair : Bool
deriving DecidableEq, Repr

/-- A pointer to a tier. -/
abbrev TierRef := ℕ

/-- The tiers that pointers lead to. -/
abbrev TierMemory := TierRef → TierRecord

/-- A `types.Params` value, whose tiers are pointers. An award is only ever read, so that it
stands for itself. -/
@[ext]
structure ParamsValue where
  plain : PlainField → ℕ
  subscriptionReservePercent : ℕ
  subscriberDailyRelayLimit : ℕ
  tiers : List (Option TierRef)
  awardConfigs : List (Option AwardConfig)

/-- `Tiers[1]`, if it is there and not nil. -/
def ParamsValue.subscriberTier (p : ParamsValue) : Option TierRef := (p.tiers[1]?).join

/-- The relay limit in the subscribers' tier. -/
def ParamsValue.tierRelays (mem : TierMemory) (p : ParamsValue) : Option ℕ :=
  p.subscriberTier.map fun r => (mem r).maxDailyRelays

/-- `p.Tiers[1].MaxDailyRelays = limit`. -/
def writeRelays (mem : TierMemory) (r : TierRef) (limit : ℕ) : TierMemory :=
  Function.update mem r { mem r with maxDailyRelays := limit }

/-! ## 2. `reflect.DeepEqual` -/

def TierRecord.deepEqual (a b : TierRecord) : Bool :=
  doubleEq a.voteWeight b.voteWeight && { a with voteWeight := 0 } = { b with voteWeight := 0 }

/-- Two pointers are equal if they are the same or lead to equal tiers. -/
def tierPointersEqual (mem : TierMemory) : Option TierRef → Option TierRef → Bool
  | none, none => true
  | some r, some r' => r = r' || (mem r).deepEqual (mem r')
  | _, _ => false

def PlainField.valuesEqual (f : PlainField) (a b : ℕ) : Bool :=
  if f.isDouble then doubleEq a b else a = b

def deepEqual (mem : TierMemory) (a b : ParamsValue) : Bool :=
  PlainField.all.all (fun f => f.valuesEqual (a.plain f) (b.plain f)) &&
    doubleEq a.subscriptionReservePercent b.subscriptionReservePercent &&
    a.subscriberDailyRelayLimit = b.subscriberDailyRelayLimit &&
    (a.tiers.length = b.tiers.length &&
      (a.tiers.zip b.tiers).all fun pair => tierPointersEqual mem pair.1 pair.2) &&
    a.awardConfigs = b.awardConfigs

/-! ## 3. The update -/

/-- The errors of `applyParamUpdates`. -/
inductive MaskError
  | required
  | emptyPath
  | whitespace (raw : String)
  | nested (path : String)
  | duplicate (path : String)
  | unsupported (path : String)
  | noChange
deriving DecidableEq, Repr

def isSpace (c : Char) : Bool :=
  (0x09 ≤ c.toNat && c.toNat ≤ 0x0d) || (0x2000 ≤ c.toNat && c.toNat ≤ 0x200a) ||
    [0x20, 0x85, 0xa0, 0x1680, 0x2028, 0x2029, 0x202f, 0x205f, 0x3000].contains c.toNat

def trimSpace (s : String) : String :=
  String.ofList ((s.toList.dropWhile isSpace).rdropWhile isSpace)

/-- The setter of a field: what it does to the memory and to `dst`. -/
def ParamField.setter (f : ParamField) (src : ParamsValue) (mem : TierMemory) (dst : ParamsValue) :
    TierMemory × ParamsValue :=
  match f with
  | plain g => (mem, { dst with plain := Function.update dst.plain g (src.plain g) })
  | subscriberDailyRelayLimit =>
    let dst := { dst with subscriberDailyRelayLimit := src.subscriberDailyRelayLimit }
    match dst.subscriberTier with
    | none => (mem, dst)
    -- the tier belongs to whoever owns the pointer
    | some r => (writeRelays mem r src.subscriberDailyRelayLimit, dst)
  | tiers =>
    let dst := { dst with tiers := src.tiers }
    match dst.subscriberTier with
    | none => (mem, dst)
    | some r => (mem, { dst with subscriberDailyRelayLimit := (mem r).maxDailyRelays })
  | awardConfigs => (mem, { dst with awardConfigs := src.awardConfigs })

/-- The variables of the loop in `applyParamUpdates`; `seen` has the paths of `changed`. -/
structure MaskState where
  memory : TierMemory
  current : ParamsValue
  changed : List String

/-- The checks of one path. -/
def checkPath (seen : List String) (raw : String) : Except MaskError ParamField := do
  let path := trimSpace raw
  failIf (path = "") .emptyPath
  failIf (path ≠ raw) (.whitespace raw)
  failIf ('.' ∈ path.toList) (.nested path)
  failIf (path ∈ seen) (.duplicate path)
  match ParamField.ofPath path with
  | none => .error (.unsupported path)
  | some f => .ok f

/-- One path of the mask. -/
def MaskState.set (st : MaskState) (updates : ParamsValue) (f : ParamField) : MaskState :=
  let (memory, current) := f.setter updates st.memory st.current
  ⟨memory, current, st.changed ++ [f.path]⟩

/-- The loop in `applyParamUpdates`: the variables at its end, and the error that ended it. -/
def applyPaths (updates : ParamsValue) : MaskState → List String → MaskState × Option MaskError
  | st, [] => (st, none)
  | st, raw :: rest =>
    match checkPath st.changed raw with
    | .error e => (st, some e)
    | .ok f => applyPaths updates (st.set updates f) rest

def syncSubscriberRelayLimit (mem : TierMemory) (p : ParamsValue) (seen : List String) :
    TierMemory × ParamsValue :=
  match p.subscriberTier with
  | none => (mem, p)
  | some r =>
    let touchedGlobal := "subscriber_daily_relay_limit" ∈ seen
    let touchedTiers := "tiers" ∈ seen
    if touchedGlobal ∧ ¬ touchedTiers then (writeRelays mem r p.subscriberDailyRelayLimit, p)
    else if touchedTiers ∧ ¬ touchedGlobal then
      (mem, { p with subscriberDailyRelayLimit := (mem r).maxDailyRelays })
    else (mem, p)

/-- `applyParamUpdates`: the memory after the call, and the new parameters with the paths that
were set. -/
def applyParamUpdates (mem : TierMemory) (current updates : ParamsValue)
    (mask : Option (List String)) : TierMemory × Except MaskError (ParamsValue × List String) :=
  match mask with
  | none | some [] => (mem, .error .required)
  | some paths =>
    match applyPaths updates ⟨mem, current, []⟩ paths with
    | (st, some e) => (st.memory, .error e)
    | (st, none) =>
      -- the old value reads the memory as it is now
      if deepEqual st.memory current st.current then (st.memory, .error .noChange)
      else
        let (mem, p) := syncSubscriberRelayLimit st.memory st.current st.changed
        (mem, .ok (p, st.changed))

/-! ## 4. The fields that are set -/

/-- The fields that the loop sets before it ends. -/
def fieldsSet (seen : List String) : List String → List ParamField
  | [] => []
  | raw :: rest =>
    match checkPath seen raw with
    | .error _ => []
    | .ok f => f :: fieldsSet (seen ++ [f.path]) rest

/-- A path passes the checks if it is that of a field and was not named before. -/
theorem checkPath_eq_ok {seen : List String} {raw : String} {f : ParamField} :
    checkPath seen raw = .ok f ↔ raw = f.path ∧ raw ∉ seen := by
  have hclean : ∀ f : ParamField, f.path ≠ "" ∧ trimSpace f.path = f.path ∧
      '.' ∉ f.path.toList := by
    have hall : ∀ f ∈ ParamField.all,
        f.path ≠ "" ∧ trimSpace f.path = f.path ∧ '.' ∉ f.path.toList := by decide +kernel
    exact fun f => hall f f.mem_all
  constructor
  · simp only [checkPath, bind_eq_ok, failIf_eq_ok, exists_const, ne_eq, not_not]
    rintro ⟨-, htrim, -, hseen, hlookup⟩
    rw [htrim] at hseen hlookup
    split at hlookup
    · cases hlookup
    · next g hg =>
      obtain rfl := Except.ok.inj hlookup
      exact ⟨(ParamField.path_of_ofPath hg).symm, hseen⟩
  · rintro ⟨rfl, hseen⟩
    obtain ⟨hne, htrim, hdot⟩ := hclean f
    simp only [checkPath, htrim, failIf_of_not _ hne, failIf_of_not _ hdot, failIf_of_not _ hseen,
      failIf_of_not _ (not_not.mpr rfl), ok_bind, ParamField.ofPath_path]

/-- The loop ends without an error if all paths were set. -/
theorem applyPaths_eq (upd : ParamsValue) (st : MaskState) (paths : List String) :
    (applyPaths upd st paths).1 = (fieldsSet st.changed paths).foldl (·.set upd ·) st ∧
      ((applyPaths upd st paths).2 = none ↔
        (fieldsSet st.changed paths).map ParamField.path = paths) := by
  induction paths generalizing st with
  | nil => simp [applyPaths, fieldsSet]
  | cons raw rest ih =>
    rw [applyPaths, fieldsSet]
    cases hcheck : checkPath st.changed raw with
    | error e => simp
    | ok f =>
      obtain ⟨rfl, -⟩ := checkPath_eq_ok.mp hcheck
      obtain ⟨hstate, hend⟩ := ih (st.set upd f)
      refine ⟨hstate, hend.trans ?_⟩
      rw [map_cons, cons_inj_right]
      rfl

theorem fieldsSet_nodup (seen paths : List String) :
    (fieldsSet seen paths).Nodup ∧ ∀ f ∈ fieldsSet seen paths, f.path ∉ seen := by
  induction paths generalizing seen with
  | nil => simp [fieldsSet]
  | cons raw rest ih =>
    rw [fieldsSet]
    cases hcheck : checkPath seen raw with
    | error e => simp
    | ok f =>
      obtain ⟨rfl, hseen⟩ := checkPath_eq_ok.mp hcheck
      obtain ⟨hnodup, hnew⟩ := ih (seen ++ [f.path])
      refine ⟨nodup_cons.mpr ⟨fun hf => hnew f hf (by simp), hnodup⟩, ?_⟩
      refine forall_mem_cons.mpr ⟨hseen, fun g hg hmem => hnew g hg ?_⟩
      exact mem_append_left _ hmem

variable {fs : List ParamField}

/-- A mask that names fields, each once, sets them all in its order. -/
theorem fieldsSet_map (hnodup : fs.Nodup) {seen : List String}
    (hnew : ∀ f ∈ fs, f.path ∉ seen) : fieldsSet seen (fs.map ParamField.path) = fs := by
  induction fs generalizing seen with
  | nil => rfl
  | cons f fs ih =>
    obtain ⟨hf, hnodup'⟩ := nodup_cons.mp hnodup
    obtain ⟨hfnew, hrest⟩ := forall_mem_cons.mp hnew
    rw [map_cons, fieldsSet, checkPath_eq_ok.mpr ⟨rfl, hfnew⟩]
    refine congrArg (f :: ·) (ih hnodup' fun g hg hmem => ?_)
    rcases mem_append.mp hmem with hmem | hmem
    · exact hrest g hg hmem
    · rw [mem_singleton, ParamField.path_inj] at hmem
      exact hf (hmem ▸ hg)

/-- Another order of a mask that sets all its fields. -/
theorem fieldsSet_perm {paths paths' : List String}
    (hall : (fieldsSet [] paths).map ParamField.path = paths) (hperm : paths'.Perm paths) :
    (fieldsSet [] paths').map ParamField.path = paths' ∧
      (fieldsSet [] paths').Perm (fieldsSet [] paths) := by
  have hcomp : Relation.Comp (· = List.map ParamField.path ·) List.Perm paths'
      (fieldsSet [] paths) := by
    rw [eq_map_comp_perm]
    show paths'.Perm ((fieldsSet [] paths).map ParamField.path)
    rwa [hall]
  obtain ⟨fs, rfl, hfs⟩ := hcomp
  have hnodup : fs.Nodup := hfs.nodup_iff.mpr (fieldsSet_nodup [] paths).1
  rw [fieldsSet_map hnodup fun _ _ => not_mem_nil]
  exact ⟨rfl, hfs⟩

/-! ## 5. What the setters do together -/

section Setters

variable {mem : TierMemory} {cur upd : ParamsValue}

/-- The write of a limit into the subscribers' tier of `p`. -/
def relayWrite (mem : TierMemory) (p : ParamsValue) (limit : ℕ) : TierMemory :=
  p.subscriberTier.elim mem fun r => writeRelays mem r limit

theorem setter_relayLimit (dst : ParamsValue) :
    ParamField.subscriberDailyRelayLimit.setter upd mem dst =
      (relayWrite mem dst upd.subscriberDailyRelayLimit,
        { dst with subscriberDailyRelayLimit := upd.subscriberDailyRelayLimit }) := by
  have htier : ({ dst with subscriberDailyRelayLimit := upd.subscriberDailyRelayLimit } :
      ParamsValue).subscriberTier = dst.subscriberTier := rfl
  simp only [ParamField.setter, htier, relayWrite]
  cases dst.subscriberTier <;> rfl

theorem setter_tiers (dst : ParamsValue) :
    ParamField.tiers.setter upd mem dst = (mem, { dst with
      tiers := upd.tiers
      subscriberDailyRelayLimit :=
        (upd.tierRelays mem).getD dst.subscriberDailyRelayLimit }) := by
  have htier : ({ dst with tiers := upd.tiers } : ParamsValue).subscriberTier =
      upd.subscriberTier := rfl
  simp only [ParamField.setter, htier, ParamsValue.tierRelays]
  cases upd.subscriberTier <;> rfl

/-- The setters of the fields, one after the other. -/
def setFields (upd : ParamsValue) (x : TierMemory × ParamsValue) (fs : List ParamField) :
    TierMemory × ParamsValue :=
  fs.foldl (fun x f => f.setter upd x.1 x.2) x

theorem foldl_set (st : MaskState) (fs : List ParamField) :
    fs.foldl (·.set upd ·) st = ⟨(setFields upd (st.memory, st.current) fs).1,
      (setFields upd (st.memory, st.current) fs).2, st.changed ++ fs.map ParamField.path⟩ := by
  induction fs generalizing st with
  | nil => simp [setFields]
  | cons f fs ih =>
    rw [foldl_cons, ih, map_cons, append_cons]
    rfl

/-- What the setters do outside the relay limits. -/
theorem setFields_other (x : TierMemory × ParamsValue) (fs : List ParamField) :
    (∀ g, (setFields upd x fs).2.plain g = if .plain g ∈ fs then upd.plain g else x.2.plain g) ∧
    (setFields upd x fs).2.subscriptionReservePercent = x.2.subscriptionReservePercent ∧
    (setFields upd x fs).2.awardConfigs =
      if .awardConfigs ∈ fs then upd.awardConfigs else x.2.awardConfigs := by
  induction fs generalizing x with
  | nil => simp [setFields]
  | cons f fs ih =>
    obtain ⟨hplain, hreserve, hawards⟩ := ih (f.setter upd x.1 x.2)
    have hcons : setFields upd x (f :: fs) = setFields upd (f.setter upd x.1 x.2) fs := rfl
    rw [hcons]
    simp only [hplain, hreserve, hawards]
    cases f with
    | plain k =>
      refine ⟨fun g => ?_, rfl, by simp [ParamField.setter]⟩
      by_cases hg : g = k
      · simp [ParamField.setter, hg]
      · simp [ParamField.setter, hg]
    | subscriberDailyRelayLimit => simp [setter_relayLimit]
    | tiers => simp [setter_tiers]
    | awardConfigs => simp [ParamField.setter]

/-- The fields that hold the relay limit. -/
def ParamField.isRelay : ParamField → Bool
  | subscriberDailyRelayLimit | tiers => true
  | _ => false

def SameRelays (x y : TierMemory × ParamsValue) : Prop :=
  x.1 = y.1 ∧ x.2.subscriberDailyRelayLimit = y.2.subscriberDailyRelayLimit ∧
    x.2.tiers = y.2.tiers

/-- The other setters neither read nor write the relay limits. -/
theorem setFields_relay {x y : TierMemory × ParamsValue} (h : SameRelays x y)
    (fs : List ParamField) :
    SameRelays (setFields upd x fs) (setFields upd y (fs.filter ParamField.isRelay)) := by
  induction fs generalizing x y with
  | nil => exact h
  | cons f fs ih =>
    obtain ⟨hmem, hlimit, htiers⟩ := h
    cases f with
    | plain => exact ih ⟨hmem, hlimit, htiers⟩
    | awardConfigs => exact ih ⟨hmem, hlimit, htiers⟩
    | subscriberDailyRelayLimit =>
      refine ih ?_
      simp [SameRelays, setter_relayLimit, relayWrite, ParamsValue.subscriberTier, hmem, htiers]
    | tiers =>
      refine ih ?_
      simp [SameRelays, setter_tiers, hmem, hlimit]

theorem relayFields_cases (h : fs.Nodup) :
    fs.filter ParamField.isRelay = [] ∨
    fs.filter ParamField.isRelay = [.tiers] ∨
    fs.filter ParamField.isRelay = [.subscriberDailyRelayLimit] ∨
    fs.filter ParamField.isRelay = [.tiers, .subscriberDailyRelayLimit] ∨
    fs.filter ParamField.isRelay = [.subscriberDailyRelayLimit, .tiers] := by
  have hrelay : ∀ f ∈ fs.filter ParamField.isRelay, f = .subscriberDailyRelayLimit ∨
      f = .tiers := by
    intro f hf
    cases f <;> simp_all [ParamField.isRelay]
  have hnodup := h.filter ParamField.isRelay
  generalize fs.filter ParamField.isRelay = l at hrelay hnodup
  rcases l with _ | ⟨a, _ | ⟨b, _ | ⟨c, l⟩⟩⟩
  · exact .inl rfl
  all_goals
    simp only [forall_mem_cons] at hrelay
    grind

/-! ### The relay limits after the setters -/

variable {p : ParamsValue} {limit : ℕ}

/-- A write of what is there. -/
theorem writeRelays_self {r : TierRef} (hr : p.subscriberTier = some r)
    (h : p.tierRelays mem = some limit) : writeRelays mem r limit = mem := by
  rw [ParamsValue.tierRelays, hr] at h
  obtain rfl := Option.some.inj h
  exact Function.update_eq_self r mem

theorem tierRelays_relayWrite {p : ParamsValue} {limit : ℕ} (h : (p.tierRelays mem).isSome = true) :
    p.tierRelays (relayWrite mem p limit) = some limit := by
  rw [ParamsValue.tierRelays, Option.isSome_map, Option.isSome_iff_exists] at h
  obtain ⟨r, hr⟩ := h
  simp [ParamsValue.tierRelays, relayWrite, hr, writeRelays]

/-- The write leaves the memory alone if the limit is there. -/
theorem relayWrite_eq_self (h : (p.tierRelays mem).isSome = true) :
    relayWrite mem p limit = mem ↔ p.tierRelays mem = some limit := by
  constructor
  · intro hwrite
    have hwritten := @tierRelays_relayWrite mem p limit h
    rwa [hwrite] at hwritten
  · intro hrelays
    obtain ⟨r, hr, -⟩ := Option.map_eq_some_iff.mp hrelays
    rw [relayWrite, hr]
    exact writeRelays_self hr hrelays

/-- A limit that is there stays when it is written through another pointer. -/
theorem tierRelays_relayWrite_of_eq {q : ParamsValue} (h : p.tierRelays mem = some limit) :
    p.tierRelays (relayWrite mem q limit) = some limit := by
  obtain ⟨r, hr, hrelays⟩ := Option.map_eq_some_iff.mp h
  rw [ParamsValue.tierRelays, hr, relayWrite]
  cases q.subscriberTier with
  | none => exact congrArg some hrelays
  | some r' =>
    by_cases heq : r = r'
    · simp [writeRelays, heq]
    · simp [writeRelays, heq, hrelays]

/-- The two copies of the limit. -/
def ParamsValue.Agree (mem : TierMemory) (p : ParamsValue) : Prop :=
  p.tierRelays mem = some p.subscriberDailyRelayLimit

/-- The setters leave copies that agree. -/
theorem agree_setFields (hcur : cur.Agree mem) (hupd : upd.subscriberTier.isSome = true)
    (fs : List ParamField) :
    (setFields upd (mem, cur) fs).2.Agree (setFields upd (mem, cur) fs).1 := by
  induction fs generalizing mem cur with
  | nil => exact hcur
  | cons f fs ih =>
    -- each setter keeps the copies in step
    refine @ih (f.setter upd mem cur).1 (f.setter upd mem cur).2 ?_
    cases f with
    | plain => exact hcur
    | awardConfigs => exact hcur
    | subscriberDailyRelayLimit =>
      rw [setter_relayLimit]
      exact tierRelays_relayWrite (by rw [hcur]; rfl)
    | tiers =>
      obtain ⟨r, hr⟩ := Option.isSome_iff_exists.mp hupd
      have hrelays : upd.tierRelays mem = some (mem r).maxDailyRelays := by
        rw [ParamsValue.tierRelays, hr]
        rfl
      rw [setter_tiers, hrelays]
      exact hrelays

/-- There is nothing to do for copies that agree. -/
theorem sync_of_agree (h : p.Agree mem) (seen : List String) :
    syncSubscriberRelayLimit mem p seen = (mem, p) := by
  obtain ⟨r, hr, hrelays⟩ := Option.map_eq_some_iff.mp h
  simp only [syncSubscriberRelayLimit, hr]
  split
  · rw [writeRelays_self hr h]
  · split
    · rw [hrelays]
    · rfl

/-- The write of the relay limit changes nothing: the limit is the stored one, or that of the
proposed tiers if they are in place already. -/
def WriteHarmless (mem : TierMemory) (cur upd : ParamsValue) (fs : List ParamField) : Prop :=
  match fs.filter ParamField.isRelay with
  | [.subscriberDailyRelayLimit] | [.subscriberDailyRelayLimit, .tiers] =>
    upd.subscriberDailyRelayLimit = cur.subscriberDailyRelayLimit
  | [.tiers, .subscriberDailyRelayLimit] => upd.Agree mem
  | _ => True

theorem memory_setFields (hcur : cur.Agree mem) (hupd : upd.subscriberTier.isSome = true)
    (hfs : fs.Nodup) : (setFields upd (mem, cur) fs).1 = mem ↔ WriteHarmless mem cur upd fs := by
  have hstored : relayWrite mem cur upd.subscriberDailyRelayLimit = mem ↔
      upd.subscriberDailyRelayLimit = cur.subscriberDailyRelayLimit := by
    rw [relayWrite_eq_self (by rw [hcur]; rfl), hcur, Option.some_inj, eq_comm]
  have hproposed : relayWrite mem upd upd.subscriberDailyRelayLimit = mem ↔ upd.Agree mem :=
    relayWrite_eq_self (by rw [ParamsValue.tierRelays, Option.isSome_map, hupd])
  rw [(setFields_relay ⟨rfl, rfl, rfl⟩ fs).1, WriteHarmless]
  rcases relayFields_cases hfs with h | h | h | h | h <;> rw [h]
  · exact iff_true_intro rfl
  · simp [setFields, setter_tiers]
  · simpa [setFields, setter_relayLimit] using hstored
  · simp only [setFields, foldl_cons, foldl_nil, setter_relayLimit, setter_tiers]
    exact hproposed
  · simpa [setFields, setter_relayLimit, setter_tiers] using hstored

/-- The parameters with the named fields replaced, whatever the order of the names. The relay
limit is the named one, or that of the named tiers. -/
def merged (mem : TierMemory) (cur upd : ParamsValue) (named : List ParamField) : ParamsValue where
  plain f := if .plain f ∈ named then upd.plain f else cur.plain f
  subscriptionReservePercent := cur.subscriptionReservePercent
  subscriberDailyRelayLimit :=
    if .subscriberDailyRelayLimit ∈ named then upd.subscriberDailyRelayLimit
    else if .tiers ∈ named then (upd.tierRelays mem).getD cur.subscriberDailyRelayLimit
    else cur.subscriberDailyRelayLimit
  tiers := if .tiers ∈ named then upd.tiers else cur.tiers
  awardConfigs := if .awardConfigs ∈ named then upd.awardConfigs else cur.awardConfigs

/-- The result is the meaning of the names if a limit and tiers that are both named agree. -/
theorem setFields_eq_merged (hfs : fs.Nodup)
    (hboth : .subscriberDailyRelayLimit ∈ fs → .tiers ∈ fs → upd.Agree mem) :
    (setFields upd (mem, cur) fs).2 = merged mem cur upd fs := by
  obtain ⟨hplain, hreserve, hawards⟩ := @setFields_other upd (mem, cur) fs
  obtain ⟨-, hlimit, htiers⟩ := @setFields_relay upd (mem, cur) _ ⟨rfl, rfl, rfl⟩ fs
  have hmem : ∀ f : ParamField, f.isRelay = true → (f ∈ fs ↔ f ∈ fs.filter ParamField.isRelay) :=
    fun f hf => by simp [hf]
  have hL := hmem .subscriberDailyRelayLimit rfl
  have hT := hmem .tiers rfl
  refine ParamsValue.ext (funext hplain) hreserve (hlimit.trans ?_) (htiers.trans ?_) hawards
  · simp only [merged, hL, hT]
    rw [hL, hT] at hboth
    rcases relayFields_cases hfs with h | h | h | h | h <;> rw [h] at hboth ⊢
    · rfl
    · simp [setFields, setter_tiers]
    · simp [setFields, setter_relayLimit]
    · simp [setFields, setter_relayLimit, setter_tiers]
    · have hagree : upd.Agree mem := hboth (by simp) (by simp)
      simp [setFields, setter_relayLimit, setter_tiers, tierRelays_relayWrite_of_eq hagree]
  · simp only [merged, hT]
    rcases relayFields_cases hfs with h | h | h | h | h <;> rw [h]
    all_goals simp [setFields, setter_relayLimit, setter_tiers]

end Setters

/-! ## 6. The whole call -/

section Call

variable {mem : TierMemory} {cur upd : ParamsValue} {paths : List String}

/-- What a call leaves in memory, and when it succeeds. -/
theorem applyParamUpdates_eq (hcur : cur.Agree mem) (hupd : upd.subscriberTier.isSome = true)
    {x : TierMemory × ParamsValue} (hx : setFields upd (mem, cur) (fieldsSet [] paths) = x) :
    (applyParamUpdates mem cur upd (some paths)).1 = x.1 ∧
    ∀ result changed, (applyParamUpdates mem cur upd (some paths)).2 = .ok (result, changed) ↔
      paths ≠ [] ∧ (fieldsSet [] paths).map ParamField.path = paths ∧
      deepEqual x.1 cur x.2 = false ∧ result = x.2 ∧ changed = paths := by
  have hagree : x.2.Agree x.1 := hx ▸ agree_setFields hcur hupd _
  obtain ⟨hstate, hend⟩ := applyPaths_eq upd ⟨mem, cur, []⟩ paths
  rw [foldl_set, hx, nil_append] at hstate
  cases paths with
  | nil =>
    subst hx
    simp [applyParamUpdates, fieldsSet, setFields]
  | cons p ps =>
    simp only [applyParamUpdates]
    rcases hloop : applyPaths upd ⟨mem, cur, []⟩ (p :: ps) with ⟨st, _ | e⟩
    · rw [hloop] at hstate hend
      have hall := hend.mp rfl
      obtain rfl : st = ⟨x.1, x.2, p :: ps⟩ := hstate.trans (by rw [hall])
      simp only [sync_of_agree hagree]
      cases hequal : deepEqual x.1 cur x.2 with
      | true => simp
      | false => simp [hall, eq_comm]
    · rw [hloop] at hstate hend
      obtain rfl : st = _ := hstate
      simp [show ¬ (fieldsSet [] (p :: ps)).map ParamField.path = p :: ps from
        fun hall => nomatch hend.mpr hall]

/-- The mask writes no relay limit that differs from the one in memory, and, if no path is
refused, a limit and tiers that are both named agree. -/
structure Harmless (mem : TierMemory) (cur upd : ParamsValue) (paths : List String) : Prop where
  write : WriteHarmless mem cur upd (fieldsSet [] paths)
  both : (fieldsSet [] paths).map ParamField.path = paths →
    .subscriberDailyRelayLimit ∈ fieldsSet [] paths → .tiers ∈ fieldsSet [] paths → upd.Agree mem

/-- Two values have the same field. -/
def ParamsValue.SameField (f : ParamField) (a b : ParamsValue) : Prop :=
  match f with
  | .plain g => a.plain g = b.plain g
  | .subscriberDailyRelayLimit => a.subscriberDailyRelayLimit = b.subscriberDailyRelayLimit
  | .tiers => a.tiers = b.tiers
  | .awardConfigs => a.awardConfigs = b.awardConfigs

variable {named : List ParamField}

theorem sameField_of_mem {f : ParamField} (h : f ∈ named) :
    (merged mem cur upd named).SameField f upd := by
  cases f <;> exact if_pos h

theorem sameField_of_not_mem {f : ParamField} (h : f ∉ named)
    (hlimit : f = .subscriberDailyRelayLimit → .tiers ∉ named) :
    (merged mem cur upd named).SameField f cur := by
  cases f with
  | subscriberDailyRelayLimit => exact (if_neg h).trans (if_neg (hlimit rfl))
  | plain => exact if_neg h
  | tiers => exact if_neg h
  | awardConfigs => exact if_neg h

theorem merged_perm {named' : List ParamField} (h : named'.Perm named) :
    merged mem cur upd named' = merged mem cur upd named := by
  simp only [merged, h.mem_iff]

theorem deepEqual_of_limit_ne {a b : ParamsValue} (mem : TierMemory)
    (h : a.subscriberDailyRelayLimit ≠ b.subscriberDailyRelayLimit) :
    deepEqual mem a b = false := by
  simp [deepEqual, h]

/-- A limit that is the stored one, and that of the proposed tiers if both are named, is
harmless in every order. -/
theorem writeHarmless_of (hfs : fs.Nodup)
    (hstored : .subscriberDailyRelayLimit ∈ fs →
      upd.subscriberDailyRelayLimit = cur.subscriberDailyRelayLimit)
    (hboth : .subscriberDailyRelayLimit ∈ fs → .tiers ∈ fs → upd.Agree mem) :
    WriteHarmless mem cur upd fs := by
  have hmem : ∀ f ∈ fs.filter ParamField.isRelay, f ∈ fs := fun f hf => (mem_filter.mp hf).1
  rw [WriteHarmless]
  rcases relayFields_cases hfs with h | h | h | h | h <;> rw [h] at hmem ⊢
  · trivial
  · trivial
  · exact hstored (hmem _ (by simp))
  · exact hboth (hmem _ (by simp)) (hmem _ (by simp))
  · exact hstored (hmem _ (by simp))

/-- The order of a harmless mask does not count. -/
theorem Harmless.perm (hcur : cur.Agree mem) (hupd : upd.subscriberTier.isSome = true)
    (h : Harmless mem cur upd paths) {result : ParamsValue} {changed : List String}
    (hcall : (applyParamUpdates mem cur upd (some paths)).2 = .ok (result, changed))
    {paths' : List String} (hperm : paths'.Perm paths) :
    (applyParamUpdates mem cur upd (some paths')).2 = .ok (result, paths') := by
  obtain ⟨hne, hall, hdiff, rfl, -⟩ := ((applyParamUpdates_eq hcur hupd rfl).2 _ _).mp hcall
  obtain ⟨hall', hfs⟩ := fieldsSet_perm hall hperm
  have hnodup := (fieldsSet_nodup [] paths).1
  have hnodup' := (fieldsSet_nodup [] paths').1
  have hboth := h.both hall
  have hboth' : .subscriberDailyRelayLimit ∈ fieldsSet [] paths' → .tiers ∈ fieldsSet [] paths' →
      upd.Agree mem := by
    rw [hfs.mem_iff, hfs.mem_iff]
    exact hboth
  rw [(memory_setFields hcur hupd hnodup).mpr h.write, setFields_eq_merged hnodup hboth] at hdiff
  rw [setFields_eq_merged hnodup hboth]
  refine ((applyParamUpdates_eq hcur hupd rfl).2 _ _).mpr ⟨?_, hall', ?_, ?_, rfl⟩
  · rintro rfl
    exact hne hperm.nil_eq.symm
  · -- the other order may write into the stored tiers, but then the limit changes
    rw [setFields_eq_merged hnodup' hboth', merged_perm hfs]
    by_cases hlimit : (merged mem cur upd (fieldsSet [] paths)).subscriberDailyRelayLimit =
        cur.subscriberDailyRelayLimit
    · rw [(memory_setFields hcur hupd hnodup').mpr
        (writeHarmless_of hnodup' (fun hmem => ?_) hboth')]
      · exact hdiff
      · rw [← hlimit]
        exact (if_pos (hfs.mem_iff.mp hmem)).symm
    · exact deepEqual_of_limit_ne _ (Ne.symm hlimit)
  · rw [setFields_eq_merged hnodup' hboth', merged_perm hfs]

/-- A limit and tiers that disagree give one of two results. -/
theorem agree_of_perm (hcur : cur.Agree mem) (hupd : upd.subscriberTier.isSome = true)
    (hwrite : WriteHarmless mem cur upd (fieldsSet [] paths))
    (hall : (fieldsSet [] paths).map ParamField.path = paths)
    (hperm : ∀ result changed,
      (applyParamUpdates mem cur upd (some paths)).2 = .ok (result, changed) →
      ∀ paths', paths'.Perm paths →
        (applyParamUpdates mem cur upd (some paths')).2 = .ok (result, paths'))
    (hL : .subscriberDailyRelayLimit ∈ fieldsSet [] paths) (hT : .tiers ∈ fieldsSet [] paths) :
    upd.Agree mem := by
  have hnodup := (fieldsSet_nodup [] paths).1
  have hmem := (memory_setFields hcur hupd hnodup).mpr hwrite
  have hpair : ∀ f : ParamField, f.isRelay = true → f ∈ fieldsSet [] paths →
      f ∈ (fieldsSet [] paths).filter ParamField.isRelay := fun f hf hin =>
    mem_filter.mpr ⟨hin, hf⟩
  have hL' := hpair _ rfl hL
  have hT' := hpair _ rfl hT
  rw [WriteHarmless] at hwrite
  rcases relayFields_cases hnodup with h | h | h | h | h <;> rw [h] at hwrite hL' hT'
  · simp at hL'
  · simp at hL'
  · simp at hT'
  · exact hwrite
  · -- the limit was named first, so the result has that of the proposed tiers
    by_contra hdis
    obtain ⟨x, hx⟩ : ∃ x, setFields upd (mem, cur) (fieldsSet [] paths) = x := ⟨_, rfl⟩
    have htiers : x.2.tiers = upd.tiers := by
      rw [← hx, (setFields_relay ⟨rfl, rfl, rfl⟩ _).2.2, h]
      simp [setFields, setter_relayLimit, setter_tiers]
    have hagree : upd.tierRelays mem = some x.2.subscriberDailyRelayLimit := by
      have := agree_setFields hcur hupd (fieldsSet [] paths)
      rw [hmem, hx, ParamsValue.Agree, ParamsValue.tierRelays, ParamsValue.subscriberTier,
        htiers] at this
      exact this
    have hlimit : x.2.subscriberDailyRelayLimit ≠ upd.subscriberDailyRelayLimit := fun heq =>
      hdis (hagree.trans (congrArg some heq))
    have hcall : (applyParamUpdates mem cur upd (some paths)).2 = .ok (x.2, paths) := by
      refine ((applyParamUpdates_eq hcur hupd hx).2 _ _).mpr ⟨?_, hall, ?_, rfl, rfl⟩
      · rintro rfl
        cases hL
      · exact deepEqual_of_limit_ne _ fun heq => hlimit (heq.symm.trans hwrite.symm)
    -- in the reversed order the limit is named last
    have hreverse : fieldsSet [] paths.reverse = (fieldsSet [] paths).reverse := by
      conv_lhs => rw [← hall, ← map_reverse]
      exact fieldsSet_map ((reverse_perm _).nodup_iff.mpr hnodup) fun _ _ => not_mem_nil
    obtain ⟨-, -, -, heq, -⟩ := ((applyParamUpdates_eq hcur hupd rfl).2 _ _).mp
      (hperm _ _ hcall paths.reverse (reverse_perm paths))
    refine hlimit ?_
    rw [heq, hreverse, (setFields_relay ⟨rfl, rfl, rfl⟩ _).2.1, filter_reverse, h]
    simp [setFields, setter_relayLimit, setter_tiers]

/-- On parameters whose copies of the limit agree, and a proposal with a subscribers' tier, a mask
is harmless if and only if the call leaves the memory alone, whatever the outcome, and every order
of the same paths has the result that the set of the paths says, in which the copies agree. -/
theorem masked_update_iff_harmless (hcur : cur.Agree mem)
    (hupd : upd.subscriberTier.isSome = true) :
    ((applyParamUpdates mem cur upd (some paths)).1 = mem ∧
    ∀ result changed, (applyParamUpdates mem cur upd (some paths)).2 = .ok (result, changed) →
      (∀ paths', paths'.Perm paths →
        (applyParamUpdates mem cur upd (some paths')).2 = .ok (result, paths')) ∧
      (∀ f : ParamField, f.path ∈ paths → result.SameField f upd) ∧
      (∀ f : ParamField, f.path ∉ paths →
        (f = .subscriberDailyRelayLimit → ParamField.tiers.path ∉ paths) →
        result.SameField f cur) ∧
      result.subscriptionReservePercent = cur.subscriptionReservePercent ∧
      result.Agree mem) ↔ Harmless mem cur upd paths := by
  have hnodup := (fieldsSet_nodup [] paths).1
  have hwrite := memory_setFields hcur hupd hnodup
  obtain ⟨hmem, hok⟩ := @applyParamUpdates_eq mem cur upd paths hcur hupd _ rfl
  rw [hmem]
  constructor
  · rintro ⟨hsame, hresult⟩
    exact ⟨hwrite.mp hsame, fun hall => agree_of_perm hcur hupd (hwrite.mp hsame) hall
      fun result changed hcall => (hresult result changed hcall).1⟩
  · refine fun h => ⟨hwrite.mpr h.write, fun result changed hcall => ?_⟩
    obtain ⟨-, hall, -, hresult, -⟩ := (hok result changed).mp hcall
    have hnamed : ∀ f : ParamField, f.path ∈ paths ↔ f ∈ fieldsSet [] paths := by
      intro f
      conv_lhs => rw [← hall]
      simp
    have hagree := agree_setFields hcur hupd (fieldsSet [] paths)
    rw [hwrite.mpr h.write, ← hresult] at hagree
    rw [setFields_eq_merged hnodup (h.both hall)] at hresult
    refine ⟨fun paths' hperm => h.perm hcur hupd hcall hperm, fun f hf => ?_, fun f hf hlimit => ?_,
      ?_, hagree⟩
    · rw [hresult]
      exact sameField_of_mem ((hnamed f).mp hf)
    · rw [hresult]
      exact sameField_of_not_mem (mt (hnamed f).mpr hf) fun heq => mt (hnamed _).mpr (hlimit heq)
    · rw [hresult]
      rfl

end Call

/-! ## 7. Both ends of the write -/

/-- Stored tiers at 0 and 1 with a subscriber limit of 1000, proposed ones at 2 and 3 with 7. -/
def tierMemory : TierMemory := fun r =>
  let tier (limit : ℕ) : TierRecord :=
    { defaultTiers.headD ⟨0, 0, 0, 0, 0, 0, 0, 0, false, 0, 0, 0⟩ with
      maxDailyRelays := limit
      editingTimeMins := 0
      voteWeight := 0
      canHaveAvatar := false
      canHaveBanner := false
      canHaveFlair := false }
  match r with
  | 1 => tier 1000
  | 3 => tier 7
  | _ => tier 0

def storedParams : ParamsValue := ⟨fun _ => 1, 0, 1000, [some 0, some 1], []⟩

def proposedParams (limit : ℕ) : ParamsValue := ⟨fun _ => 2, 0, limit, [some 2, some 3], []⟩

/-- What a call leaves: the subscriber limits of the stored and of the proposed tiers, and the
limit in the result. -/
def callView (limit : ℕ) (mask : List String) : ℕ × ℕ × Option ℕ :=
  let call := applyParamUpdates tierMemory storedParams (proposedParams limit) (some mask)
  ((call.1 1).maxDailyRelays, (call.1 3).maxDailyRelays,
    call.2.toOption.map fun result => result.1.subscriberDailyRelayLimit)

/-- A limit that agrees with the proposed tiers and is named after them. The reversed order has the
same result, although it writes into the stored tiers. -/
theorem masked_update_tiersFirst :
    (applyParamUpdates tierMemory storedParams (proposedParams 7)
      (some ["tiers", "mint_interval", "subscriber_daily_relay_limit"])).1 = tierMemory ∧
    ∃ result, result.subscriberDailyRelayLimit = 7 ∧
      (applyParamUpdates tierMemory storedParams (proposedParams 7)
        (some ["tiers", "mint_interval", "subscriber_daily_relay_limit"])).2 =
        .ok (result, ["tiers", "mint_interval", "subscriber_daily_relay_limit"]) ∧
      (applyParamUpdates tierMemory storedParams (proposedParams 7)
        (some ["subscriber_daily_relay_limit", "mint_interval", "tiers"])).2 =
        .ok (result, ["subscriber_daily_relay_limit", "mint_interval", "tiers"]) := by
  have hfields : fieldsSet [] ["tiers", "mint_interval", "subscriber_daily_relay_limit"] =
      [.tiers, .plain .mintInterval, .subscriberDailyRelayLimit] := by decide +kernel
  have hagree : (proposedParams 7).Agree tierMemory := rfl
  have hcur : storedParams.Agree tierMemory := rfl
  have hharmless : Harmless tierMemory storedParams (proposedParams 7)
      ["tiers", "mint_interval", "subscriber_daily_relay_limit"] := by
    refine ⟨?_, fun _ _ _ => hagree⟩
    rw [WriteHarmless, hfields]
    exact hagree
  obtain ⟨hmem, hresult⟩ := (masked_update_iff_harmless hcur rfl).mpr hharmless
  have hcall : (applyParamUpdates tierMemory storedParams (proposedParams 7)
      (some ["tiers", "mint_interval", "subscriber_daily_relay_limit"])).2.toOption.map
        (fun result => result.1.subscriberDailyRelayLimit) = some 7 := by decide +kernel
  obtain ⟨⟨result, changed⟩, hok, hlimit⟩ := Option.map_eq_some_iff.mp hcall
  have hok := toOption_eq_some.mp hok
  obtain ⟨hperm, -⟩ := hresult result changed hok
  exact ⟨hmem, result, hlimit, hperm _ (.refl _), hperm _ (by decide)⟩

/-- The outcome of a mask that names limit and tiers depends on the order; a limit that is named
first, or alone, is written into the stored tiers, also if the call fails on a later path, and
one that is named after the tiers is written into the proposed ones. -/
theorem relay_limit_order_and_aliasing :
    storedParams.tierRelays tierMemory = some storedParams.subscriberDailyRelayLimit ∧
    ((proposedParams 5).tierRelays tierMemory).isSome = true ∧
    callView 5 ["tiers", "subscriber_daily_relay_limit"] = (1000, 5, some 5) ∧
    callView 5 ["subscriber_daily_relay_limit", "tiers"] = (5, 7, some 7) ∧
    callView 5 ["subscriber_daily_relay_limit"] = (5, 7, some 5) ∧
    callView 5 ["subscriber_daily_relay_limit", "no_such_field"] = (5, 7, none) := by
  decide +kernel

end MirageNode
