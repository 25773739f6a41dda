import MirageNode.Keys
import MirageNode.Lib.Fallible
import MirageNode.Lib.OrderedMap

/-!
# Separation of the key space

`iterPrefixFrom` and the pruning of engagement details over the bytes of the store. A
store that holds keys of `types/kv.go`, beside keys under other texts, is scanned by a
prefix for exactly the records that belong to the prefix's owner, team or epoch, and
`pruneEpochDetails` removes details of its own epoch only.
-/

namespace MirageNode

open ByteKeys OrderedStore OrderedMap List

/-- The module's store, values as they are marshalled. -/
abbrev ByteStore := OrderedMap (List UInt8) (List UInt8)

namespace ByteStore

/-- Below `prefixEndBytes`. -/
def beforeEnd (pre key : List UInt8) : Bool :=
  match prefixEnd pre with
  | none => true
  | some e => decide (key < e)

/-- A limit that is not positive is none. -/
def iterPrefixFrom (store : ByteStore) (pre start : List UInt8) (exclusive : Bool) (limit : ℤ) :
    List (List UInt8 × List UInt8) :=
  let start := if start = [] then pre else start
  let found := store.scan fun key => decide (start ≤ key) && beforeEnd pre key
  let found := if exclusive then found.drop 1 else found
  if 0 < limit then found.take limit.toNat else found

def iterPrefixKeys (store : ByteStore) (pre : List UInt8) (limit : ℤ) :
    List (List UInt8 × List UInt8) :=
  iterPrefixFrom store pre pre false limit

def deleteCreatorPrefixBudget (store : ByteStore) (pre : List UInt8) (budget : ℤ) :
    ByteStore × ℤ :=
  let records := iterPrefixFrom store pre pre false budget
  ((records.map Prod.fst).foldl OrderedMap.erase store, budget - records.length)

section

variable (n m : ℕ)

def keyCreatorEpoch (epoch : Int64) : StoreKey n m := ⟨.creatorEpoch, .cons epoch .nil⟩

def keyCreatorEpochPrune (epoch : Int64) : StoreKey n m := ⟨.creatorEpochPrune, .cons epoch .nil⟩

def keyEngagementEpochPrefix (epoch : Int64) : KeyPrefix n m := ⟨.engagementEpoch, .cons epoch .nil⟩

def keyEngagementCountEpochPrefix (epoch : Int64) : KeyPrefix n m :=
  ⟨.engagementCountEpoch, .cons epoch .nil⟩

def keyEngagementValidEpochPrefix (epoch : Int64) : KeyPrefix n m :=
  ⟨.engagementValidEpoch, .cons epoch .nil⟩

/-- The three prefixes of an epoch's engagement details. -/
def detailPrefixes (epoch : Int64) : List (KeyPrefix n m) :=
  [keyEngagementEpochPrefix n m epoch, keyEngagementCountEpochPrefix n m epoch,
    keyEngagementValidEpochPrefix n m epoch]

end

/-- The loop over the prefixes, left as soon as the budget is used up. -/
def deletePrefixes : List (List UInt8) → ByteStore → ℤ → ByteStore × ℤ
  | [], store, budget => (store, budget)
  | pre :: rest, store, budget =>
    let (store, budget) := deleteCreatorPrefixBudget store pre budget
    if budget ≤ 0 then (store, 0) else deletePrefixes rest store budget

/-- `markPruned` is the epoch record read, marked and written back, with the error of a
record that does not parse. -/
def pruneEpochDetails {ε : Type} (n m : ℕ) (markPruned : List UInt8 → Except ε (List UInt8))
    (store : ByteStore) (epoch : Int64) (budget : ℤ) : Except ε (ByteStore × ℤ) := do
  let (store, budget) :=
    deletePrefixes ((detailPrefixes n m epoch).map KeyPrefix.bytes) store budget
  if 0 < budget then
    match store.get (keyCreatorEpoch n m epoch).bytes with
    | none => return (store, budget)
    | some record =>
      let record ← markPruned record
      let store := store.set (keyCreatorEpoch n m epoch).bytes record
      return (store.erase (keyCreatorEpochPrune n m epoch).bytes, budget)
  else return (store, budget)

/-! ## Scans -/

variable {store : ByteStore} {value : List UInt8}

theorem mem_iterPrefixKeys {pre key : List UInt8} :
    (key, value) ∈ iterPrefixKeys store pre 0 ↔ store.get key = some value ∧ InRange pre key := by
  have hstart : (if pre = [] then pre else pre) = pre := ite_self _
  have hend : beforeEnd pre key = true ↔ ∀ e, prefixEnd pre = some e → key < e := by
    rw [beforeEnd]
    cases prefixEnd pre <;> simp
  simp only [iterPrefixKeys, iterPrefixFrom, hstart, lt_irrefl, if_false, Bool.false_eq_true,
    mem_scan, Bool.and_eq_true, decide_eq_true_eq, hend, InRange]

variable {store' : ByteStore} {budget left : ℤ}

/-- What one deletion under a budget does: it removes keys of the range only, and all of
them if some budget is left. -/
theorem deleteCreatorPrefixBudget_spec {pre : List UInt8} (hpos : 0 < budget)
    (h : deleteCreatorPrefixBudget store pre budget = (store', left)) :
    (∀ key, store'.get key = store.get key ∨ InRange pre key ∧ store'.get key = none) ∧
      (0 < left → ∀ key, InRange pre key → store'.get key = none) := by
  obtain ⟨found, hfound⟩ : ∃ found, found = iterPrefixKeys store pre 0 := ⟨_, rfl⟩
  have hrecords : iterPrefixFrom store pre pre false budget = found.take budget.toNat := by
    rw [hfound]
    simp only [iterPrefixKeys, iterPrefixFrom, hpos, if_true, lt_irrefl, if_false]
  rw [deleteCreatorPrefixBudget, hrecords] at h
  obtain ⟨rfl, rfl⟩ := Prod.mk.inj h
  simp only [get_foldl_erase]
  constructor
  · intro key
    split
    next hmem =>
      obtain ⟨⟨k, v⟩, hin, rfl⟩ := mem_map.mp hmem
      have hin := mem_of_mem_take hin
      rw [hfound, mem_iterPrefixKeys] at hin
      exact .inr ⟨hin.2, rfl⟩
    next => exact .inl rfl
  · intro hleft key hrange
    rw [length_take] at hleft
    have hall : found.take budget.toNat = found := take_of_length_le (by omega)
    split
    next => rfl
    next hmem =>
      cases hget : store.get key with
      | none => rfl
      | some v =>
        refine absurd (mem_map.mpr ⟨(key, v), ?_, rfl⟩) hmem
        rw [hall, hfound, mem_iterPrefixKeys]
        exact ⟨hget, hrange⟩

theorem deletePrefixes_spec {pres : List (List UInt8)} (hpos : 0 < budget)
    (h : deletePrefixes pres store budget = (store', left)) :
    (∀ key, store'.get key = store.get key ∨
      (∃ pre ∈ pres, InRange pre key) ∧ store'.get key = none) ∧
      (0 < left → ∀ pre ∈ pres, ∀ key, InRange pre key → store'.get key = none) := by
  induction pres generalizing store budget with
  | nil =>
    obtain ⟨rfl, rfl⟩ := Prod.mk.inj h
    exact ⟨fun _ => .inl rfl, fun _ _ hmem => nomatch hmem⟩
  | cons pre rest ih =>
    obtain ⟨store₁, budget₁, hfirst⟩ :
        ∃ s b, deleteCreatorPrefixBudget store pre budget = (s, b) := ⟨_, _, rfl⟩
    have hone := deleteCreatorPrefixBudget_spec hpos hfirst
    rw [deletePrefixes, hfirst] at h
    by_cases hused : budget₁ ≤ 0
    · obtain ⟨rfl, rfl⟩ := Prod.mk.inj ((if_pos hused).symm.trans h)
      refine ⟨fun key => (hone.1 key).imp_right fun hkey => ?_,
        fun hleft => absurd hleft (lt_irrefl 0)⟩
      exact ⟨⟨pre, mem_cons_self, hkey.1⟩, hkey.2⟩
    · have hrest := ih (not_le.mp hused) ((if_neg hused).symm.trans h)
      constructor
      · intro key
        rcases hrest.1 key with hsame | ⟨⟨pre', hmem, hrange⟩, hnone⟩
        · rw [hsame]
          refine (hone.1 key).imp_right fun hkey => ?_
          exact ⟨⟨pre, mem_cons_self, hkey.1⟩, hkey.2⟩
        · exact .inr ⟨⟨pre', mem_cons_of_mem _ hmem, hrange⟩, hnone⟩
      · intro hleft pre' hmem key hrange
        rcases mem_cons.mp hmem with rfl | hmem
        · -- What the first deletion removed, the others do not bring back.
          rcases hrest.1 key with hsame | ⟨-, hnone⟩
          · rw [hsame]
            exact hone.2 (not_le.mp hused) key hrange
          · exact hnone
        · exact hrest.2 hleft pre' hmem key hrange

/-! ## Separation -/

/-- Every key is one of `types/kv.go` or starts with a text of another part. -/
def Keyed (n m : ℕ) (store : ByteStore) : Prop :=
  ∀ bytes value, store.get bytes = some value →
    (∃ k : StoreKey n m, bytes = k.bytes) ∨ ∃ t ∈ otherTexts, textBytes t <+: bytes

/-- A key of an engagement record, an engagement count or a counted engagement of the
epoch. -/
def IsDetail {n m : ℕ} (epoch : Int64) (k : StoreKey n m) : Prop :=
  ∃ p ∈ detailPrefixes n m epoch, p.Owns k

section

variable {n m : ℕ}

theorem Keyed.inRange_iff (h : Keyed n m store) (p : KeyPrefix n m)
    {bytes : List UInt8} (hget : store.get bytes = some value) :
    InRange p.bytes bytes ↔ ∃ k : StoreKey n m, bytes = k.bytes ∧ p.Owns k := by
  constructor
  · intro hrange
    rcases h bytes value hget with ⟨k, rfl⟩ | ⟨t, ht, hother⟩
    · exact ⟨k, rfl, (p.inRange_iff k).mp hrange⟩
    · exact absurd hrange (p.not_inRange_of_other ht hother)
  · rintro ⟨k, rfl, howns⟩
    exact (p.inRange_iff k).mpr howns

theorem Keyed.mem_iterPrefixKeys_iff (h : Keyed n m store)
    (p : KeyPrefix n m) {bytes : List UInt8} :
    (bytes, value) ∈ iterPrefixKeys store p.bytes 0 ↔
      store.get bytes = some value ∧ ∃ k : StoreKey n m, bytes = k.bytes ∧ p.Owns k := by
  rw [mem_iterPrefixKeys]
  exact and_congr_right fun hget => h.inRange_iff p hget

/-- The details of an epoch are no epoch record and no mark for pruning. -/
theorem IsDetail.ne_epochKeys {epoch : Int64} {k : StoreKey n m} (h : IsDetail epoch k)
    (other : Int64) : k.bytes ≠ (keyCreatorEpoch n m other).bytes ∧
      k.bytes ≠ (keyCreatorEpochPrune n m other).bytes := by
  obtain ⟨p, hp, values, rfl, -⟩ := h
  simp only [detailPrefixes, mem_cons, not_mem_nil, or_false] at hp
  constructor <;>
  · intro heq
    have hkind := congrArg StoreKey.kind (StoreKey.bytes_injective heq)
    rcases hp with rfl | rfl | rfl <;> cases hkind

/-- What pruning leaves of the store: details of the epoch are gone, its own record and
mark may have changed, and nothing else has. -/
theorem pruneEpochDetails_spec {ε : Type} {markPruned : List UInt8 → Except ε (List UInt8)}
    {epoch : Int64} (hkeyed : Keyed n m store) (hpos : 0 < budget)
    (h : pruneEpochDetails n m markPruned store epoch budget = .ok (store', left)) :
    (∀ bytes, store'.get bytes = store.get bytes ∨
        (∃ k : StoreKey n m, bytes = k.bytes ∧ IsDetail epoch k) ∧ store'.get bytes = none ∨
        bytes = (keyCreatorEpochPrune n m epoch).bytes ∨
        bytes = (keyCreatorEpoch n m epoch).bytes ∧ (store'.get bytes).isSome) ∧
      (0 < left → ∀ k : StoreKey n m, IsDetail epoch k → store'.get k.bytes = none) := by
  obtain ⟨store₁, budget₁, hdelete⟩ : ∃ s b, deletePrefixes
      ((detailPrefixes n m epoch).map KeyPrefix.bytes) store budget = (s, b) := ⟨_, _, rfl⟩
  obtain ⟨honly, hall⟩ := deletePrefixes_spec hpos hdelete
  have honly : ∀ bytes, store₁.get bytes = store.get bytes ∨
      (∃ k : StoreKey n m, bytes = k.bytes ∧ IsDetail epoch k) ∧ store₁.get bytes = none := by
    intro bytes
    rcases honly bytes with hsame | ⟨⟨pre, hpre, hrange⟩, hnone⟩
    · exact .inl hsame
    · obtain ⟨p, hp, rfl⟩ := mem_map.mp hpre
      cases hget : store.get bytes with
      | none => exact .inl hnone
      | some value =>
        obtain ⟨k, hk, howns⟩ := (hkeyed.inRange_iff p hget).mp hrange
        exact .inr ⟨⟨k, hk, p, hp, howns⟩, hnone⟩
  have hall : 0 < budget₁ → ∀ k : StoreKey n m, IsDetail epoch k → store₁.get k.bytes = none := by
    rintro hleft k ⟨p, hp, howns⟩
    exact hall hleft _ (mem_map_of_mem hp) _ ((p.inRange_iff k).mpr howns)
  have hkeep : ∀ bytes, store₁.get bytes = store.get bytes ∨
      (∃ k : StoreKey n m, bytes = k.bytes ∧ IsDetail epoch k) ∧ store₁.get bytes = none ∨
      bytes = (keyCreatorEpochPrune n m epoch).bytes ∨
      bytes = (keyCreatorEpoch n m epoch).bytes ∧ (store₁.get bytes).isSome :=
    fun bytes => (honly bytes).imp_right .inl
  rw [pruneEpochDetails, hdelete] at h
  dsimp only at h
  split at h
  · split at h
    · cases h
      exact ⟨hkeep, hall⟩
    next record hrecord =>
      rw [Fallible.bind_eq_ok] at h
      obtain ⟨record', -, h⟩ := h
      cases h
      constructor
      · intro bytes
        rw [get_erase, get_set]
        split
        next hmark => exact .inr (.inr (.inl hmark))
        next =>
          split
          next hepoch => exact .inr (.inr (.inr ⟨hepoch, rfl⟩))
          next hne =>
            rcases honly bytes with hsame | hgone
            · exact .inl hsame
            · exact .inr (.inl hgone)
      · intro hleft k hk
        obtain ⟨hepoch, hmark⟩ := hk.ne_epochKeys epoch
        rw [get_erase_of_ne hmark, get_set_of_ne _ hepoch]
        exact hall hleft k hk
  · cases h
    exact ⟨hkeep, hall⟩

end

/-- For addresses and hashes of any fixed lengths. Keys are equal only if their kinds and all
components are; a prefix is a byte prefix of exactly the keys with its components; scanning a
store by it gives exactly the records with such keys; and pruning an epoch removes no record of
another. -/
theorem key_space_separated (n m : ℕ) :
    Function.Injective (StoreKey.bytes : StoreKey n m → List UInt8) ∧
    (∀ (p : KeyPrefix n m) (k : StoreKey n m), p.bytes <+: k.bytes ↔ p.Owns k) ∧
    ∀ store : ByteStore, Keyed n m store →
      (∀ (p : KeyPrefix n m) (bytes value : List UInt8),
        (bytes, value) ∈ iterPrefixKeys store p.bytes 0 ↔
          store.get bytes = some value ∧ ∃ k : StoreKey n m, bytes = k.bytes ∧ p.Owns k) ∧
      ∀ (ε : Type) (markPruned : List UInt8 → Except ε (List UInt8)) (epoch : Int64)
        (budget left : ℤ) (store' : ByteStore), 0 < budget →
        pruneEpochDetails n m markPruned store epoch budget = .ok (store', left) →
        (∀ bytes, store.get bytes ≠ none → store'.get bytes = none →
          (∃ k : StoreKey n m, bytes = k.bytes ∧ IsDetail epoch k) ∨
            bytes = (keyCreatorEpochPrune n m epoch).bytes) ∧
        (0 < left → ∀ k : StoreKey n m, IsDetail epoch k → store'.get k.bytes = none) := by
  refine ⟨StoreKey.bytes_injective, KeyPrefix.isPrefix_iff, fun store hkeyed =>
    ⟨fun p bytes value => hkeyed.mem_iterPrefixKeys_iff p, ?_⟩⟩
  intro ε markPruned epoch budget left store' hpos h
  obtain ⟨hspec, hall⟩ := pruneEpochDetails_spec hkeyed hpos h
  refine ⟨fun bytes hhad hgone => ?_, hall⟩
  rcases hspec bytes with hsame | ⟨hdetail, -⟩ | hmark | ⟨-, hsome⟩
  · exact absurd (hsame.symm.trans hgone) hhad
  · exact .inl hdetail
  · exact .inr hmark
  · rw [hgone] at hsome
    cases hsome

/-- An upvote engagement of account 7 on the post 9. -/
def engagementKey (epoch : Int64) : StoreKey 1 1 :=
  ⟨.engagement, .cons epoch (.cons ⟨[7], rfl⟩ (.cons (1 : UInt8) (.cons ⟨[9], rfl⟩ .nil)))⟩

/-- The same engagement in epochs 255 and 256, where the first is to be pruned. -/
def twoEpochs : ByteStore :=
  ((OrderedMap.empty.set (engagementKey 255).bytes []).set (engagementKey 256).bytes []).set
    (keyCreatorEpoch 1 1 255).bytes [1]

theorem twoEpochs_keyed : Keyed 1 1 twoEpochs := by
  intro bytes value hget
  rw [twoEpochs, get_set, get_set, get_set] at hget
  split at hget
  next h => exact .inl ⟨_, h⟩
  next =>
    split at hget
    next h => exact .inl ⟨_, h⟩
    next =>
      split at hget
      next h => exact .inl ⟨_, h⟩
      next => cases hget

theorem not_isDetail_engagementKey : ¬ IsDetail 255 (engagementKey 256) := by
  rintro ⟨p, hp, values, hkey, hfirst⟩
  simp only [detailPrefixes, mem_cons, not_mem_nil, or_false] at hp
  rcases hp with rfl | rfl | rfl
  · cases hkey
    cases hfirst
  · cases hkey
  · cases hkey

/-- Pruning epoch 255 removes its engagement and keeps that of epoch 256. -/
theorem key_space_separated_twoEpochs :
    ∃ store', pruneEpochDetails 1 1 (Except.ok (ε := Unit)) twoEpochs 255 10 = .ok (store', 9) ∧
      store'.get (engagementKey 255).bytes = none ∧
      store'.get (engagementKey 256).bytes ≠ none := by
  obtain ⟨store', hrun⟩ : ∃ store', pruneEpochDetails 1 1 (Except.ok (ε := Unit)) twoEpochs 255 10 =
      .ok (store', 9) := ⟨_, rfl⟩
  obtain ⟨honly, hall⟩ := ((key_space_separated 1 1).2.2 twoEpochs twoEpochs_keyed).2
    Unit _ 255 10 9 store' (by decide) hrun
  refine ⟨store', hrun, hall (by decide) _ ⟨keyEngagementEpochPrefix 1 1 255, mem_cons_self,
    _, rfl, rfl⟩, fun hgone => ?_⟩
  rcases honly _ (by decide +kernel) hgone with ⟨k, hk, hdetail⟩ | hmark
  · obtain rfl := StoreKey.bytes_injective hk
    exact not_isDetail_engagementKey hdetail
  · exact absurd hmark (by decide +kernel)

end ByteStore

end MirageNode
