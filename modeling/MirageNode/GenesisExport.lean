import MirageNode.Genesis
import MirageNode.KeySpace

/-!
# Export and import of the store

`ExportGenesis` writes the parameters and every key/value pair of the store, in base64.
`InitGenesis` on the empty store reserves the usernames of the module accounts, writes the
parameters and then restores the pairs. Whatever the first two steps wrote is overwritten
if the export has the key (`initGenesis_exportGenesis`), and stays otherwise. So the import
gives back the exported store exactly if that still holds the usernames and profiles of
all module accounts.

The functions work on the bytes of the store. Base64, the protobuf codec and JSON are
parameters.
-/

namespace MirageNode

open OrderedStore OrderedMap Fallible ByteKeys

namespace ByteStore

/-! ## 1. Parameters -/

/-- `Params`: the fields that genesis import looks at, and the others. -/
structure StoredParams (R : Type) where
  minDifficulty : ℕ
  powMessageWindow : ℕ
  mintInterval : ℕ
  mintQuantity : ℕ
  blockHashWindow : ℕ
  subscriptionReserveBps : ℕ
  others : R

structure RawKVPair where
  key : String
  value : String

/-- `GenesisState`, with initial profiles of a type `P`. -/
structure GenesisFile (R P : Type) where
  params : StoredParams R
  rawState : List RawKVPair
  initialProfiles : List P

/-- The errors of export and import. -/
inductive TransferError where
  | paramsEmpty (height : ℤ)
  | paramsUnmarshal (height : ℤ) (length : ℕ) (cause : String)
  | paramsValidate (height : ℤ) (cause : String)
  | marshalGenesis (cause : String)
  | unmarshalGenesis (cause : String)
  | setParams (cause : String)
  | decodeKey (cause : String)
  | decodeValue (cause : String)
  | profile (message : String)
deriving DecidableEq, Repr

/-- The codecs, the module addresses and the parts of the parameters and of the initial
profiles that are not looked into here. `J` stands for JSON documents. -/
structure GenesisCodec (R P J : Type) where
  /-- `DefaultParams`, the other fields -/
  defaultOthers : R
  /-- `Params.Validate`, the other checks -/
  validateOthers : StoredParams R → Except String Unit
  marshal : StoredParams R → List UInt8
  unmarshal : List UInt8 → Except String (StoredParams R)
  /-- `base64.StdEncoding` -/
  encodeToString : List UInt8 → String
  decodeString : String → Except String (List UInt8)
  /-- `authtypes.NewModuleAddress` -/
  newModuleAddress : String → String
  /-- `json.Marshal` of the profile with this owner and username -/
  marshalProfile : String → String → List UInt8
  marshalJSON : GenesisFile R P → Except String J
  unmarshalJSON : J → Except String (GenesisFile R P)
  /-- The loop body of `InitGenesis` over the initial profiles -/
  createProfile : ByteStore → P → Except String ByteStore

/-- What is read back is what was written. -/
structure GenesisCodec.Lawful {R P J : Type} (codec : GenesisCodec R P J) : Prop where
  decode_encode : ∀ bytes, codec.decodeString (codec.encodeToString bytes) = .ok bytes
  unmarshal_marshal : ∀ file json, codec.marshalJSON file = .ok json →
    codec.unmarshalJSON json = .ok file

section

variable {R P J : Type} (codec : GenesisCodec R P J)

/-- `DefaultParams`. -/
def defaultStoredParams : StoredParams R where
  minDifficulty := 10
  powMessageWindow := 20
  mintInterval := 200
  mintQuantity := 125000000000
  blockHashWindow := 60
  subscriptionReserveBps := 0
  others := codec.defaultOthers

/-- `Params.Validate`, the checks on the fields named here before the others. -/
def validate (p : StoredParams R) : Except String Unit := do
  failIf (p.minDifficulty = 0 ∨ p.minDifficulty > 256) "min_difficulty must be in [1,256]"
  failIf (p.powMessageWindow = 0 ∨ p.powMessageWindow > 1000)
    "pow_message_window must be in [1,1000]"
  failIf (p.mintInterval = 0 ∨ p.mintInterval > 10512000) "mint_interval must be in [1,10512000]"
  failIf (p.mintQuantity = 0) "mint_quantity must be > 0"
  failIf (p.mintQuantity > 10000000000000)
    s!"mint_quantity {p.mintQuantity} exceeds max 10000000000000"
  failIf (p.blockHashWindow = 0 ∨ p.blockHashWindow > 1000) "block_hash_window must be in [1,1000]"
  failIf (p.subscriptionReserveBps > 10000) "subscription_reserve_bps must be in [0,10000]"
  codec.validateOthers p

/-- The defaults that `InitGenesis` puts in for missing parameters. -/
def withDefaults (p : StoredParams R) : StoredParams R :=
  let p := if p.minDifficulty = 0 ∨ p.powMessageWindow = 0 ∨ p.mintInterval = 0 ∨
    p.mintQuantity = 0 ∨ p.blockHashWindow = 0 then defaultStoredParams codec else p
  if p.subscriptionReserveBps = 0 then
    { p with subscriptionReserveBps := (defaultStoredParams codec).subscriptionReserveBps }
  else p

def getParams (height : ℤ) (store : ByteStore) : Except TransferError (StoredParams R) :=
  match store.get (textBytes "params") with
  | none => .error (.paramsEmpty height)
  | some [] => .error (.paramsEmpty height)
  | some bytes => do
    let p ← (codec.unmarshal bytes).mapError (TransferError.paramsUnmarshal height bytes.length)
    (validate codec p).mapError (TransferError.paramsValidate height)
    return p

def setParams (store : ByteStore) (p : StoredParams R) : Except TransferError ByteStore := do
  (validate codec p).mapError TransferError.setParams
  return store.set (textBytes "params") (codec.marshal p)

/-! ## 2. Usernames and profiles -/

def usernameKey (lower : String) : List UInt8 := textBytes "usernames/" ++ textBytes lower

def profileKey (addr : String) : List UInt8 := textBytes "profiles/" ++ textBytes addr

/-- `ClaimUsername` of a name in lower case. -/
def claimUsername (store : ByteStore) (username owner : String) : Except String ByteStore :=
  match store.get (usernameKey username) with
  | none => .ok (store.set (usernameKey username) (textBytes owner))
  | some existing =>
    if existing ≠ [] ∧ existing ≠ textBytes owner then .error "username already taken"
    else .ok (store.set (usernameKey username) (textBytes owner))

/-- `ReleaseUsername` of a name in lower case. -/
def releaseUsername (store : ByteStore) (username owner : String) : ByteStore :=
  match store.get (usernameKey username) with
  | none => store
  | some existing =>
    if existing ≠ [] ∧ existing = textBytes owner then store.erase (usernameKey username) else store

/-- The first loop of `InitGenesis`: the username and the profile of a module account. -/
def reserveModule (store : ByteStore) (modName : String) : ByteStore :=
  let addr := codec.newModuleAddress modName
  let username := reservedUsernameForModule modName
  let store := match claimUsername store username addr with
    | .ok store => store
    | .error _ => store
  store.set (profileKey addr) (codec.marshalProfile addr username)

/-! ## 3. Export and import -/

def getAllKVPairs (store : ByteStore) : List RawKVPair :=
  store.entries.map fun e => ⟨codec.encodeToString e.1, codec.encodeToString e.2⟩

def exportGenesis (height : ℤ) (store : ByteStore) : Except TransferError J := do
  let params ← getParams codec height store
  (codec.marshalJSON ⟨params, getAllKVPairs codec store, []⟩).mapError TransferError.marshalGenesis

/-- One pair of the raw state. -/
def importPair (store : ByteStore) (kv : RawKVPair) : Except TransferError ByteStore := do
  let key ← (codec.decodeString kv.key).mapError TransferError.decodeKey
  let value ← (codec.decodeString kv.value).mapError TransferError.decodeValue
  return store.set key value

def initGenesis (store : ByteStore) (json : J) : Except TransferError ByteStore := do
  let store := reservedModuleAccountNames.foldl (reserveModule codec) store
  let file ← (codec.unmarshalJSON json).mapError TransferError.unmarshalGenesis
  let store ← setParams codec store (withDefaults codec file.params)
  let store ← file.rawState.foldlM (importPair codec) store
  file.initialProfiles.foldlM
    (fun store ip => (codec.createProfile store ip).mapError TransferError.profile) store

end

/-! ## 4. The round trip -/

section

variable {R P J : Type} {codec : GenesisCodec R P J}

/-- The store still has the usernames and the profiles of the module accounts. -/
def HoldsModules (codec : GenesisCodec R P J) (store : ByteStore) : Prop :=
  ∀ m ∈ reservedModuleAccountNames, store.has (usernameKey (reservedUsernameForModule m)) = true ∧
    store.has (profileKey (codec.newModuleAddress m)) = true

/-- A key that is written when the module accounts are reserved. -/
def ReservedKey (codec : GenesisCodec R P J) (key : List UInt8) : Prop :=
  ∃ m ∈ reservedModuleAccountNames, key = usernameKey (reservedUsernameForModule m) ∨
    key = profileKey (codec.newModuleAddress m)

theorem holdsModules_iff {store : ByteStore} :
    HoldsModules codec store ↔ ∀ key, ReservedKey codec key → store.has key = true := by
  constructor
  · rintro h key ⟨m, hm, rfl | rfl⟩
    · exact (h m hm).1
    · exact (h m hm).2
  · exact fun h m hm => ⟨h _ ⟨m, hm, .inl rfl⟩, h _ ⟨m, hm, .inr rfl⟩⟩

/-- The claim in `InitGenesis` leaves an entry under the name and touches no other key. -/
theorem has_claim (store : ByteStore) (username owner : String) (key : List UInt8) :
    (match claimUsername store username owner with
      | .ok store => store
      | .error _ => store).has key = true ↔ store.has key = true ∨ key = usernameKey username := by
  have hset : (store.set (usernameKey username) (textBytes owner)).has key = true ↔
      store.has key = true ∨ key = usernameKey username := by
    rw [has_set_iff, or_comm]
  unfold claimUsername
  cases hget : store.get (usernameKey username) with
  | none => exact hset
  | some existing =>
    dsimp only
    by_cases htaken : existing ≠ [] ∧ existing ≠ textBytes owner
    · rw [if_pos htaken]
      refine ⟨.inl, fun h => h.elim id ?_⟩
      rintro rfl
      exact has_iff.mpr ⟨existing, hget⟩
    · rw [if_neg htaken]
      exact hset

theorem has_reserveModule (store : ByteStore) (m : String) (key : List UInt8) :
    (reserveModule codec store m).has key = true ↔ store.has key = true ∨
      key = usernameKey (reservedUsernameForModule m) ∨
      key = profileKey (codec.newModuleAddress m) := by
  rw [reserveModule, has_set_iff, has_claim, or_comm, or_assoc]

/-- Reserving the module accounts in the empty store writes their keys and no others. -/
theorem has_reserved (key : List UInt8) :
    (reservedModuleAccountNames.foldl (reserveModule codec) .empty).has key = true ↔
      ReservedKey codec key := by
  have hfold : ∀ (ms : List String) (store : ByteStore),
      (ms.foldl (reserveModule codec) store).has key = true ↔ store.has key = true ∨
        ∃ m ∈ ms, key = usernameKey (reservedUsernameForModule m) ∨
          key = profileKey (codec.newModuleAddress m) := by
    intro ms
    induction ms with
    | nil => simp
    | cons m ms ih =>
      intro store
      rw [List.foldl_cons, ih, has_reserveModule, List.exists_mem_cons_iff, or_assoc]
  rw [hfold]
  exact or_iff_right Bool.false_ne_true

/-- Parameters that pass their checks need no defaults. -/
theorem withDefaults_eq {p : StoredParams R} (h : validate codec p = .ok ()) :
    withDefaults codec p = p := by
  simp only [validate, bind_eq_ok, failIf_eq_ok, exists_const, not_or] at h
  obtain ⟨hdifficulty, hwindow, hinterval, hquantity, -, hhash, -⟩ := h
  have hset : ¬ (p.minDifficulty = 0 ∨ p.powMessageWindow = 0 ∨ p.mintInterval = 0 ∨
      p.mintQuantity = 0 ∨ p.blockHashWindow = 0) := by
    simp only [hdifficulty.1, hwindow.1, hinterval.1, hquantity, hhash.1, or_self,
      not_false_eq_true]
  unfold withDefaults
  rw [if_neg hset]
  dsimp only
  split
  next hreserve =>
    cases p
    simp only at hreserve
    rw [hreserve]
    rfl
  next => rfl

theorem foldlM_importPair (hlaw : codec.Lawful) (es : List (List UInt8 × List UInt8))
    (store : ByteStore) :
    (es.map fun e => (⟨codec.encodeToString e.1, codec.encodeToString e.2⟩ : RawKVPair)).foldlM
        (importPair codec) store =
      .ok (es.foldl (fun store e => store.set e.1 e.2) store) := by
  induction es generalizing store with
  | nil => rfl
  | cons e es ih =>
    rw [List.map_cons, List.foldlM_cons, importPair, hlaw.decode_encode, hlaw.decode_encode]
    exact ih (store.set e.1 e.2)

theorem getParams_eq_ok {height : ℤ} {store : ByteStore} {p : StoredParams R}
    (h : getParams codec height store = .ok p) :
    store.has (textBytes "params") = true ∧ validate codec p = .ok () := by
  unfold getParams at h
  split at h
  · cases h
  · cases h
  next bytes hne hget =>
    simp only [bind_eq_ok, mapError_eq_ok, pure_eq_ok] at h
    obtain ⟨_, -, ⟨⟩, hvalid, rfl⟩ := h
    exact ⟨has_iff.mpr ⟨_, hget⟩, hvalid⟩

/-- The import of an export writes the exported pairs over the module accounts and the
parameters. -/
theorem initGenesis_exportGenesis (hlaw : codec.Lawful) {height : ℤ} {store : ByteStore} {json : J}
    (hexport : exportGenesis codec height store = .ok json) :
    ∃ base : ByteStore, initGenesis codec .empty json =
        .ok (store.entries.foldl (fun b e => b.set e.1 e.2) base) ∧
      ∀ key, base.has key = true ↔ ReservedKey codec key ∨ key = textBytes "params" := by
  simp only [exportGenesis, bind_eq_ok, mapError_eq_ok] at hexport
  obtain ⟨p, hparams, hjson⟩ := hexport
  obtain ⟨-, hvalid⟩ := getParams_eq_ok hparams
  refine ⟨(reservedModuleAccountNames.foldl (reserveModule codec) .empty).set (textBytes "params")
    (codec.marshal p), ?_, fun key => ?_⟩
  · rw [initGenesis, hlaw.unmarshal_marshal _ _ hjson]
    have hset : ∀ store, setParams codec store (withDefaults codec p) =
        .ok (store.set (textBytes "params") (codec.marshal p)) := by
      intro store
      rw [withDefaults_eq hvalid, setParams, hvalid]
      rfl
    simp only [Except.mapError, ok_bind, hset, getAllKVPairs, foldlM_importPair hlaw]
    rfl
  · rw [has_set_iff, has_reserved, or_comm]

/-- The import of an export succeeds and has every exported pair. It is the exported store,
with no entry more, exactly if that still holds the usernames and the profiles of the
module accounts. -/
theorem genesis_round_trip (hlaw : codec.Lawful) {height : ℤ} {store : ByteStore} {json : J}
    (hexport : exportGenesis codec height store = .ok json) :
    ∃ store', initGenesis codec .empty json = .ok store' ∧
      (∀ key value, store.get key = some value → store'.get key = some value) ∧
      (store' = store ↔ HoldsModules codec store) := by
  obtain ⟨base, hinit, hbase⟩ := initGenesis_exportGenesis hlaw hexport
  have hget := get_foldl_set_entries store base
  refine ⟨_, hinit, fun key value h => ?_, fun heq => ?_, fun hmodules => ?_⟩
  · rw [hget, h, Option.some_or]
  · -- a reserved key is written before the pairs, so it is there after them
    refine holdsModules_iff.mpr fun key hkey => ?_
    obtain ⟨value, hvalue⟩ := has_iff.mp ((hbase key).mpr (.inl hkey))
    rw [← heq, OrderedMap.has, hget, hvalue]
    cases store.get key <;> rfl
  · refine ext_get fun key => ?_
    rw [hget]
    cases hstore : store.get key with
    | some value => rfl
    | none =>
      have hno : store.has key = false := has_eq_false_iff.mpr hstore
      have hparams : store.has (textBytes "params") = true := by
        obtain ⟨p, hp, -⟩ := bind_eq_ok.mp hexport
        exact (getParams_eq_ok hp).1
      have hbase' : base.has key = false := by
        rw [Bool.eq_false_iff, Ne, hbase]
        rintro (hkey | rfl)
        · exact absurd (holdsModules_iff.mp hmodules key hkey) (by simp [hno])
        · exact absurd hparams (by simp [hno])
      rw [Option.none_or]
      exact has_eq_false_iff.mp hbase'

end

/-! ## 5. A renamed module account -/

/-- A codec that writes one character for a byte and hands JSON documents through. -/
def plainCodec : GenesisCodec Unit Unit (GenesisFile Unit Unit) where
  defaultOthers := ()
  validateOthers _ := .ok ()
  marshal _ := [1]
  unmarshal _ := .ok ⟨10, 20, 200, 125000000000, 60, 0, ()⟩
  encodeToString bytes := String.ofList (bytes.map fun b => Char.ofNat b.toNat)
  decodeString s := .ok (s.toList.map fun c => UInt8.ofNat c.toNat)
  newModuleAddress m := m
  marshalProfile owner username := textBytes owner ++ textBytes username
  marshalJSON file := .ok file
  unmarshalJSON file := .ok file
  createProfile store _ := .ok store

theorem plainCodec_lawful : plainCodec.Lawful where
  decode_encode bytes := by
    have hbyte : ∀ b : UInt8, UInt8.ofNat (Char.ofNat b.toNat).toNat = b := by
      intro b
      have hvalid : b.toNat.isValidChar := .inl (b.toNat_lt.trans (by decide))
      rw [Char.ofNat, dif_pos hvalid]
      exact UInt8.ofNat_toNat
    simp [plainCodec, Function.comp_def, hbyte]
  unmarshal_marshal file json h := by
    cases h
    rfl

/-- The genesis of a new chain. -/
def freshGenesis : GenesisFile Unit Unit := ⟨defaultStoredParams plainCodec, [], []⟩

/-- What `SetUsername` writes for an account with a username, in lower case both: the old name
is released, the new one claimed and the profile written. -/
def setUsername (store : ByteStore) (owner old new : String) (profile : List UInt8) :
    Except String ByteStore := do
  let store := if old ≠ new then releaseUsername store old owner else store
  let store ← claimUsername store new owner
  return store.set (profileKey owner) profile

/-- Governance renames its own account, and the export has no entry for the old name any
more. The import puts it back, for an account that does not carry it. -/
theorem import_adds_released_name :
    ∃ store₀ store₁ json store₂, initGenesis plainCodec .empty freshGenesis = .ok store₀ ∧
      setUsername store₀ "gov" "mirage-gov" "council" (textBytes "council") = .ok store₁ ∧
      exportGenesis plainCodec 7 store₁ = .ok json ∧
      initGenesis plainCodec .empty json = .ok store₂ ∧
      store₁.get (usernameKey "mirage-gov") = none ∧
      store₂.get (usernameKey "mirage-gov") = some (textBytes "gov") := by
  have hrun : ((initGenesis plainCodec .empty freshGenesis).toOption.bind fun store₀ =>
      (setUsername store₀ "gov" "mirage-gov" "council" (textBytes "council")).toOption.bind
        fun store₁ => (exportGenesis plainCodec 7 store₁).toOption.bind fun json =>
      (initGenesis plainCodec .empty json).toOption.map fun store₂ =>
        (store₁.get (usernameKey "mirage-gov"), store₂.get (usernameKey "mirage-gov"))) =
      some (none, some (textBytes "gov")) := by decide +kernel
  simp only [Option.bind_eq_some_iff, Option.map_eq_some_iff, toOption_eq_some,
    Prod.mk.injEq] at hrun
  obtain ⟨store₀, h₀, store₁, h₁, json, hjson, store₂, h₂, hbefore, hafter⟩ := hrun
  exact ⟨store₀, store₁, json, store₂, h₀, h₁, hjson, h₂, hbefore, hafter⟩

/-- The store of a new chain. -/
def freshStore : ByteStore := (initGenesis plainCodec .empty freshGenesis).toOption.getD .empty

theorem genesis_round_trip_freshStore :
    ∃ json, exportGenesis plainCodec 7 freshStore = .ok json ∧
      initGenesis plainCodec .empty json = .ok freshStore := by
  obtain ⟨json, hjson⟩ : ∃ json, exportGenesis plainCodec 7 freshStore = .ok json := by
    have h : (exportGenesis plainCodec 7 freshStore).toOption.isSome = true := by decide +kernel
    obtain ⟨json, hjson⟩ := Option.isSome_iff_exists.mp h
    exact ⟨json, toOption_eq_some.mp hjson⟩
  have hmodules : HoldsModules plainCodec freshStore := by
    unfold HoldsModules
    decide +kernel
  obtain ⟨store', hinit, -, hsame⟩ := genesis_round_trip plainCodec_lawful hjson
  exact ⟨json, hjson, by rw [hinit, hsame.mpr hmodules]⟩

end ByteStore

end MirageNode
