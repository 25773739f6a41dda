import Mathlib.Data.List.Sort
import Mathlib.Data.Finset.Insert
import Mathlib.Data.Prod.Lex
import Mathlib.Algebra.BigOperators.Group.List.Basic
import Mathlib.Algebra.Order.BigOperators.Group.List
import Mathlib.Tactic.Linarith

/-!
# Finite maps iterated in key order

A persistent key-value store hands its records out in key order. `OrderedMap`
is that view of a store: the list of its records, strictly increasing in the
key. The order is a field of the structure, so no operation can break it and
no proof has to carry it.

Every fact about `get`, `set` and `erase` goes through membership in the entry
list (`mem_entries_iff`, `mem_set`, `mem_erase`). Totals over all records are
`sum`, which changes by exactly one record under `set` and `erase` (`sum_set`,
`sum_of_get`).
-/

namespace OrderedStore

open List

/-- A finite map whose records are listed in strictly increasing key order. -/
structure OrderedMap (κ : Type*) (α : Type*) [LinearOrder κ] where
  entries : List (κ × α)
  sorted : entries.Pairwise (fun a b => a.1 < b.1)

namespace OrderedMap

variable {κ α β : Type*} [LinearOrder κ] {m : OrderedMap κ α} {k k' : κ} {v : α}

/-- The store without records. -/
def empty : OrderedMap κ α := ⟨[], List.Pairwise.nil⟩

/-- The value stored under a key. -/
def get (m : OrderedMap κ α) (k : κ) : Option α := m.entries.lookup k

/-- Whether a key is present. -/
def has (m : OrderedMap κ α) (k : κ) : Bool := (m.get k).isSome

theorem sorted_set (m : OrderedMap κ α) (k : κ) (v : α) :
    (m.entries.filter (fun e => e.1 < k) ++ (k, v) :: m.entries.filter (fun e => k < e.1)).Pairwise
      (fun a b => a.1 < b.1) := by
  rw [pairwise_append, pairwise_cons]
  refine ⟨m.sorted.filter _, ⟨?_, m.sorted.filter _⟩, ?_⟩
  · intro e he
    simpa using (mem_filter.mp he).2
  · intro a ha b hb
    have hak : a.1 < k := by simpa using (mem_filter.mp ha).2
    rcases mem_cons.mp hb with rfl | hb
    · exact hak
    · exact hak.trans (by simpa using (mem_filter.mp hb).2)

/-- Writes a record, replacing the one under the same key. -/
def set (m : OrderedMap κ α) (k : κ) (v : α) : OrderedMap κ α :=
  ⟨m.entries.filter (fun e => e.1 < k) ++ (k, v) :: m.entries.filter (fun e => k < e.1),
    sorted_set m k v⟩

/-- Removes the record under a key; nothing happens when there is none. -/
def erase (m : OrderedMap κ α) (k : κ) : OrderedMap κ α :=
  ⟨m.entries.filter (fun e => e.1 ≠ k), m.sorted.filter _⟩

/-- The records whose key satisfies `p`, in key order. -/
def scan (m : OrderedMap κ α) (p : κ → Bool) : List (κ × α) :=
  m.entries.filter (fun e => p e.1)

/-- The total of `f` over all records. -/
def sum [AddCommMonoid β] (m : OrderedMap κ α) (f : κ → α → β) : β :=
  (m.entries.map (fun e => f e.1 e.2)).sum

/-- The number of records. -/
def size (m : OrderedMap κ α) : ℕ := m.entries.length

/-! ## Membership -/

theorem nodup_keys (m : OrderedMap κ α) : (m.entries.map Prod.fst).Nodup :=
  (pairwise_map.mpr m.sorted).imp ne_of_lt

theorem key_unique {v w : α} (hv : (k, v) ∈ m.entries) (hw : (k, w) ∈ m.entries) : v = w :=
  congrArg Prod.snd (inj_on_of_nodup_map m.nodup_keys hv hw rfl)

/-- A key's value is the one record of the list that carries the key. -/
theorem mem_entries_iff : (k, v) ∈ m.entries ↔ m.get k = some v := by
  constructor
  · intro hmem
    cases hg : m.get k with
    | none =>
      have habs := lookup_eq_none_iff.mp hg (k, v) hmem
      simp at habs
    | some w =>
      obtain ⟨l₁, l₂, heq, -⟩ := lookup_eq_some_iff.mp hg
      have hw : (k, w) ∈ m.entries := by rw [heq]; simp
      rw [key_unique hmem hw]
  · intro hget
    obtain ⟨l₁, l₂, heq, -⟩ := lookup_eq_some_iff.mp hget
    rw [heq]
    simp

variable {v' : α}

theorem mem_set {v : α} :
    (k', v') ∈ (m.set k v).entries ↔ (k' = k ∧ v' = v) ∨ (k' ≠ k ∧ (k', v') ∈ m.entries) := by
  simp only [set, mem_append, mem_cons, mem_filter, decide_eq_true_eq,
    Prod.mk.injEq, ne_iff_lt_or_gt]
  tauto

theorem mem_erase : (k', v') ∈ (m.erase k).entries ↔ k' ≠ k ∧ (k', v') ∈ m.entries := by
  simp only [erase, mem_filter, decide_eq_true_eq]
  tauto

/-- Two maps with the same values are the same map: the order leaves no choice
of layout. -/
theorem ext_get {m n : OrderedMap κ α} (h : ∀ k, m.get k = n.get k) : m = n := by
  have hmem : ∀ e : κ × α, e ∈ m.entries ↔ e ∈ n.entries := by
    rintro ⟨k, v⟩
    rw [mem_entries_iff, mem_entries_iff, h k]
  have : Std.Irrefl (fun a b : κ × α => a.1 < b.1) := ⟨fun a => lt_irrefl a.1⟩
  have : Std.Antisymm (fun a b : κ × α => a.1 < b.1) :=
    ⟨fun a b hab hba => absurd hab (lt_asymm hba)⟩
  have heq := List.Pairwise.eq_of_mem_iff m.sorted n.sorted hmem
  cases m
  cases n
  simpa using heq

/-! ## Reading after writing -/

@[simp] theorem get_empty (k : κ) : (empty : OrderedMap κ α).get k = none := rfl

theorem get_set (m : OrderedMap κ α) (k k' : κ) (v : α) :
    (m.set k v).get k' = if k' = k then some v else m.get k' := by
  apply Option.ext
  intro w
  rw [← mem_entries_iff, mem_set]
  by_cases hk : k' = k
  · simp [hk, eq_comm]
  · simp [hk, mem_entries_iff]

theorem get_erase (m : OrderedMap κ α) (k k' : κ) :
    (m.erase k).get k' = if k' = k then none else m.get k' := by
  apply Option.ext
  intro w
  rw [← mem_entries_iff, mem_erase]
  by_cases hk : k' = k
  · simp [hk]
  · simp [hk, mem_entries_iff]

@[simp] theorem get_set_self (m : OrderedMap κ α) (k : κ) (v : α) : (m.set k v).get k = some v := by
  rw [get_set, if_pos rfl]

@[simp] theorem get_erase_self (m : OrderedMap κ α) (k : κ) : (m.erase k).get k = none := by
  rw [get_erase, if_pos rfl]

@[simp] theorem set_set (m : OrderedMap κ α) (k : κ) (v v' : α) :
    (m.set k v).set k v' = m.set k v' := by
  apply ext_get
  intro k'
  simp only [get_set]
  split <;> rfl

theorem set_of_get (h : m.get k = some v) : m.set k v = m := by
  apply ext_get
  intro k'
  rw [get_set]
  split
  · next hk => rw [hk, h]
  · rfl

theorem get_set_of_ne (v : α) (h : k' ≠ k) : (m.set k v).get k' = m.get k' := by
  rw [get_set, if_neg h]

theorem get_erase_of_ne (h : k' ≠ k) : (m.erase k).get k' = m.get k' := by
  rw [get_erase, if_neg h]

theorem get_set_cases (h : (m.set k v).get k' = some v') :
    k' = k ∧ v' = v ∨ k' ≠ k ∧ m.get k' = some v' := by
  rw [get_set] at h
  split at h
  · next hk => exact .inl ⟨hk, (Option.some.inj h).symm⟩
  · next hk => exact .inr ⟨hk, h⟩

theorem get_of_get_erase (h : (m.erase k).get k' = some v) : m.get k' = some v := by
  rw [get_erase] at h
  split at h
  · cases h
  · exact h

theorem has_iff : m.has k = true ↔ ∃ v, m.get k = some v := by
  rw [has, Option.isSome_iff_exists]

@[simp] theorem erase_set_self (m : OrderedMap κ α) (k : κ) (v : α) :
    (m.set k v).erase k = m.erase k := by
  apply ext_get
  intro k'
  simp only [get_erase, get_set]
  split <;> rfl

theorem erase_of_get_none (h : m.get k = none) : m.erase k = m := by
  apply ext_get
  intro k'
  rw [get_erase]
  split
  · next hk => rw [hk, h]
  · rfl

/-! ## Many records -/

theorem get_foldl_erase (ks : List κ) (m : OrderedMap κ α) (k : κ) :
    (ks.foldl erase m).get k = if k ∈ ks then none else m.get k := by
  induction ks generalizing m with
  | nil => rfl
  | cons k' ks ih =>
    rw [foldl_cons, ih, get_erase]
    by_cases hk : k = k' <;> simp [hk]

variable {es : List (κ × α)}

/-- Records with different keys written one after the other. -/
theorem get_foldl_set (hes : (es.map Prod.fst).Nodup) (m : OrderedMap κ α)
    (k : κ) : (es.foldl (fun m e => m.set e.1 e.2) m).get k = (es.lookup k).or (m.get k) := by
  induction es generalizing m with
  | nil => rfl
  | cons e es ih =>
    obtain ⟨hnot, hes⟩ := nodup_cons.mp hes
    rw [foldl_cons, ih hes, get_set, lookup_cons]
    by_cases hk : k = e.1
    · have hnone : es.lookup k = none := by
        rw [lookup_eq_none_iff]
        intro e' he'
        have hne : k ≠ e'.1 := fun h => hnot (hk ▸ h ▸ mem_map_of_mem he')
        simpa using hne
      rw [hnone, if_pos hk, hk]
      simp
    · have hbeq : (k == e.1) = false := beq_eq_false_iff_ne.mpr hk
      rw [if_neg hk, hbeq]

/-- The records of one map written over another. -/
theorem get_foldl_set_entries (m base : OrderedMap κ α) (k : κ) :
    (m.entries.foldl (fun b e => b.set e.1 e.2) base).get k = (m.get k).or (base.get k) :=
  get_foldl_set m.nodup_keys base k

section Writes

variable {β : Type*} (key : β → κ) (val : β → α)

/-- A key that is not among those written. -/
theorem get_foldl_set_of_not_mem {bs : List β} (m : OrderedMap κ α) (hk : ∀ b ∈ bs, k ≠ key b) :
    (bs.foldl (fun m b => m.set (key b) (val b)) m).get k = m.get k := by
  induction bs generalizing m with
  | nil => rfl
  | cons b bs ih =>
    rw [foldl_cons, ih _ fun b' hb' => hk b' (mem_cons_of_mem _ hb'),
      get_set_of_ne _ (hk b mem_cons_self)]

/-- A record that was among those written, with different keys, one after the other. -/
theorem get_foldl_set_of_mem {bs : List β} (hbs : (bs.map key).Nodup) (m : OrderedMap κ α) {b : β}
    (hb : b ∈ bs) : (bs.foldl (fun m b => m.set (key b) (val b)) m).get (key b) = some (val b) := by
  induction bs generalizing m with
  | nil => cases hb
  | cons b' bs ih =>
    obtain ⟨hnot, hbs⟩ := nodup_cons.mp hbs
    rw [foldl_cons]
    rcases mem_cons.mp hb with rfl | hb
    · have hlast : ∀ b' ∈ bs, key b ≠ key b' :=
        fun b' hb' h => hnot (h ▸ mem_map_of_mem hb')
      rw [get_foldl_set_of_not_mem key val _ hlast, get_set_self]
    · exact ih hbs _ hb

end Writes

/-! ## The first record -/

theorem get_head (h : m.entries = (k, v) :: es) : m.get k = some v := by
  rw [← mem_entries_iff, h]
  exact mem_cons_self

theorem head_le (h : m.entries = (k, v) :: es) {k' : κ} (hg : m.get k' = some v') : k ≤ k' := by
  have hmem := mem_entries_iff.mpr hg
  have hs := m.sorted
  rw [h] at hmem hs
  rcases mem_cons.mp hmem with heq | htail
  · exact (congrArg Prod.fst heq).ge
  · exact (rel_of_pairwise_cons hs htail).le

/-- Past the first key, all keys come later. -/
theorem head_lt (h : m.entries = (k, v) :: es) {k' : κ}
    (hg : (m.erase k).get k' = some v') : k < k' := by
  refine lt_of_le_of_ne (head_le h (get_of_get_erase hg)) fun heq => ?_
  rw [← heq, get_erase_self] at hg
  cases hg

theorem entries_erase_head (h : m.entries = (k, v) :: es) : (m.erase k).entries = es := by
  have hs := m.sorted
  rw [h] at hs
  show m.entries.filter _ = es
  rw [h, filter_cons_of_neg (by simp)]
  apply filter_eq_self.mpr
  intro e he
  simpa using (rel_of_pairwise_cons hs he).ne'

theorem get_none_of_entries_nil (h : m.entries = []) (k : κ) : m.get k = none := by
  rw [get, h]
  rfl

/-! ## Resuming an iteration -/

variable {p : κ → Bool} {rest : List (κ × α)}

/-- A scan from a record that an iteration reaches visits what the iteration has left,
the record included. -/
theorem scan_from {q : κ → Bool} {seen : List (κ × α)} (h : m.scan p = seen ++ (k, v) :: rest)
    (hq : ∀ k', q k' = (p k' && decide (k ≤ k'))) : m.scan q = (k, v) :: rest := by
  have hfilter : m.scan q = (m.scan p).filter (fun e => decide (k ≤ e.1)) := by
    simp only [scan, hq, filter_filter, Bool.and_comm]
  have hsorted : (seen ++ (k, v) :: rest).Pairwise (fun a b => a.1 < b.1) := by
    rw [← h]
    exact m.sorted.sublist filter_sublist
  obtain ⟨-, hfrom, hcross⟩ := pairwise_append.mp hsorted
  have hseen : seen.filter (fun e => decide (k ≤ e.1)) = [] := by
    rw [filter_eq_nil_iff]
    intro e he
    simpa using hcross e he (k, v) mem_cons_self
  have hrest : rest.filter (fun e => decide (k ≤ e.1)) = rest := by
    rw [filter_eq_self]
    intro e he
    simpa using (rel_of_pairwise_cons hfrom he).le
  rw [hfilter, h, filter_append, hseen, filter_cons_of_pos (by simp), hrest]
  rfl

/-- An iteration that stopped at the record `k` resumes after it: a scan from
`k` on, without its first record, is what was left. -/
theorem scan_resume {q : κ → Bool} {seen : List (κ × α)} (h : m.scan p = seen ++ (k, v) :: rest)
    (hq : ∀ k', q k' = (p k' && decide (k ≤ k'))) : (m.scan q).drop 1 = rest := by
  rw [scan_from h hq]
  rfl

theorem mem_scan : (k, v) ∈ m.scan p ↔ m.get k = some v ∧ p k = true := by
  rw [scan, mem_filter, mem_entries_iff]

/-- The first record of an iteration is the least one that it visits. -/
theorem scan_head (h : m.scan p = (k, v) :: rest) :
    m.get k = some v ∧ p k = true ∧ ∀ k' v', m.get k' = some v' → p k' = true → k ≤ k' := by
  have hmem : (k, v) ∈ m.scan p := by
    rw [h]
    exact mem_cons_self
  obtain ⟨hget, hp⟩ := mem_scan.mp hmem
  refine ⟨hget, hp, fun k' v' hget' hp' => ?_⟩
  have hmem' : (k', v') ∈ m.scan p := mem_scan.mpr ⟨hget', hp'⟩
  have hsorted : (m.scan p).Pairwise (fun a b => a.1 < b.1) := m.sorted.filter _
  rw [h] at hmem' hsorted
  rcases mem_cons.mp hmem' with heq | htail
  · exact (congrArg Prod.fst heq).ge
  · exact (rel_of_pairwise_cons hsorted htail).le

/-- An iteration from a key that is present, without that key, visits what comes
behind it. -/
theorem scan_drop_one
    (hget : m.get k = some v) (hp : p k = true) (hmin : ∀ k', p k' = true → k ≤ k') :
    (m.scan p).drop 1 = m.scan (fun k' => p k' && decide (k < k')) := by
  have hfilter : m.scan (fun k' => p k' && decide (k < k')) =
      (m.scan p).filter (fun e => decide (k < e.1)) := by
    simp only [scan, filter_filter, Bool.and_comm]
  have hmem : (k, v) ∈ m.scan p := mem_scan.mpr ⟨hget, hp⟩
  have hsorted : (m.scan p).Pairwise (fun a b => a.1 < b.1) := m.sorted.filter _
  rw [hfilter]
  cases hscan : m.scan p with
  | nil =>
    rw [hscan] at hmem
    cases hmem
  | cons e es =>
    obtain ⟨k₀, v₀⟩ := e
    obtain ⟨-, hp₀, hleast⟩ := scan_head hscan
    obtain rfl : k₀ = k := le_antisymm (hleast k v hget hp) (hmin k₀ hp₀)
    rw [hscan] at hsorted
    rw [filter_cons_of_neg (by simp), drop_one, tail_cons, eq_comm,
      filter_eq_self]
    exact fun e he => decide_eq_true (rel_of_pairwise_cons hsorted he)

/-! ## Mapping values -/

/-- The same keys with `f` applied to the values. -/
def mapVal (f : α → β) (m : OrderedMap κ α) : OrderedMap κ β where
  entries := m.entries.map fun e => (e.1, f e.2)
  sorted := by
    rw [pairwise_map]
    exact m.sorted

@[simp] theorem get_mapVal (f : α → β) (m : OrderedMap κ α) (k : κ) :
    (m.mapVal f).get k = (m.get k).map f := by
  show (m.entries.map fun e => (e.1, f e.2)).lookup k = (m.entries.lookup k).map f
  induction m.entries with
  | nil => rfl
  | cons e es ih =>
    obtain ⟨k₀, v₀⟩ := e
    simp only [map_cons, lookup_cons, ih]
    cases k == k₀ <;> rfl

theorem mapVal_set (f : α → β) (m : OrderedMap κ α) (k : κ) (v : α) :
    (m.set k v).mapVal f = (m.mapVal f).set k (f v) := by
  apply ext_get
  intro k'
  simp only [get_mapVal, get_set]
  split <;> rfl

/-! ## Slices -/

section Slice

variable {ι : Type*} [LinearOrder ι]

theorem sorted_slice (m : OrderedMap (ι ×ₗ κ) α) (i : ι) :
    (m.entries.filterMap fun e =>
      if (ofLex e.1).1 = i then some ((ofLex e.1).2, e.2) else none).Pairwise
      (fun a b => a.1 < b.1) := by
  refine List.Pairwise.filterMap _ (fun a a' hlt b hb b' hb' => ?_) m.sorted
  obtain ⟨hi, hb⟩ : (ofLex a.1).1 = i ∧ ((ofLex a.1).2, a.2) = b := by simpa using hb
  obtain ⟨hi', hb'⟩ : (ofLex a'.1).1 = i ∧ ((ofLex a'.1).2, a'.2) = b' := by simpa using hb'
  subst hb hb'
  rcases Prod.Lex.lt_iff.mp hlt with hfst | ⟨-, hsnd⟩
  · exact absurd (hi.trans hi'.symm) hfst.ne
  · exact hsnd

/-- The records whose key starts with `i`, under the rest of the key. -/
def slice (m : OrderedMap (ι ×ₗ κ) α) (i : ι) : OrderedMap κ α :=
  ⟨m.entries.filterMap fun e =>
    if (ofLex e.1).1 = i then some ((ofLex e.1).2, e.2) else none, sorted_slice m i⟩

@[simp] theorem get_slice (m : OrderedMap (ι ×ₗ κ) α) (i : ι) (k : κ) :
    (m.slice i).get k = m.get (toLex (i, k)) := by
  apply Option.ext
  intro v
  rw [← mem_entries_iff, ← mem_entries_iff]
  show (k, v) ∈ m.entries.filterMap _ ↔ _
  rw [mem_filterMap]
  constructor
  · rintro ⟨⟨key, w⟩, hmem, hsome⟩
    obtain ⟨hi, hk, rfl⟩ : (ofLex key).1 = i ∧ (ofLex key).2 = k ∧ w = v := by simpa using hsome
    rwa [← hi, ← hk]
  · intro hmem
    exact ⟨_, hmem, if_pos rfl⟩

theorem slice_set_self (m : OrderedMap (ι ×ₗ κ) α) (i : ι) (k : κ) (v : α) :
    (m.set (toLex (i, k)) v).slice i = (m.slice i).set k v := by
  apply ext_get
  intro k'
  rw [get_slice, get_set, get_set, get_slice]
  simp only [EmbeddingLike.apply_eq_iff_eq, Prod.mk.injEq, true_and]

theorem slice_set_of_ne {m : OrderedMap (ι ×ₗ κ) α} {i : ι} {k : ι ×ₗ κ} (v : α)
    (h : (ofLex k).1 ≠ i) : (m.set k v).slice i = m.slice i := by
  apply ext_get
  intro k'
  rw [get_slice, get_slice, get_set_of_ne]
  rintro rfl
  exact h rfl

theorem slice_erase_self (m : OrderedMap (ι ×ₗ κ) α) (i : ι) (k : κ) :
    (m.erase (toLex (i, k))).slice i = (m.slice i).erase k := by
  apply ext_get
  intro k'
  rw [get_slice, get_erase, get_erase, get_slice]
  simp only [EmbeddingLike.apply_eq_iff_eq, Prod.mk.injEq, true_and]

theorem slice_erase_of_ne {m : OrderedMap (ι ×ₗ κ) α} {i : ι} {k : ι ×ₗ κ}
    (h : (ofLex k).1 ≠ i) : (m.erase k).slice i = m.slice i := by
  apply ext_get
  intro k'
  rw [get_slice, get_slice, get_erase_of_ne]
  rintro rfl
  exact h rfl

theorem size_slice (m : OrderedMap (ι ×ₗ κ) α) (i : ι) :
    (m.slice i).size = (m.scan fun k => (ofLex k).1 = i).length := by
  rw [size, slice, scan, length_filterMap_eq_countP, countP_eq_length_filter]
  congr 2
  funext e
  by_cases h : (ofLex e.1).1 = i <;> simp [h]

/-- Writing a record changes its own slice. -/
theorem slice_set (m : OrderedMap (ι ×ₗ κ) α) (i : ι) (k : κ) (v : α) :
    (m.set (toLex (i, k)) v).slice = Function.update m.slice i ((m.slice i).set k v) := by
  funext j
  rcases eq_or_ne j i with rfl | hne
  · rw [Function.update_self, slice_set_self]
  · have hkey : (ofLex (toLex (i, k))).1 ≠ j := Ne.symm hne
    rw [Function.update_of_ne hne, slice_set_of_ne v hkey]

/-- Erasing a record changes its own slice. -/
theorem slice_erase (m : OrderedMap (ι ×ₗ κ) α) (i : ι) (k : κ) :
    (m.erase (toLex (i, k))).slice = Function.update m.slice i ((m.slice i).erase k) := by
  funext j
  rcases eq_or_ne j i with rfl | hne
  · rw [Function.update_self, slice_erase_self]
  · have hkey : (ofLex (toLex (i, k))).1 ≠ j := Ne.symm hne
    rw [Function.update_of_ne hne, slice_erase_of_ne hkey]

end Slice

/-! ## Keys -/

/-- The keys that are present. -/
def keys (m : OrderedMap κ α) : Finset κ := ⟨m.entries.map Prod.fst, m.nodup_keys⟩

theorem mem_keys : k ∈ m.keys ↔ ∃ v, m.get k = some v := by
  show k ∈ m.entries.map Prod.fst ↔ _
  simp only [← mem_entries_iff, mem_map, Prod.exists, exists_and_right, exists_eq_right]

@[simp] theorem keys_set (m : OrderedMap κ α) (k : κ) (v : α) :
    (m.set k v).keys = insert k m.keys := by
  ext k'
  rw [Finset.mem_insert, mem_keys, mem_keys, get_set]
  split <;> simp_all

/-! ## Totals -/

section Totals

variable [AddCommMonoid β]

/-- A record that is present can be brought to the front. -/
theorem perm_of_get (h : m.get k = some v) : m.entries.Perm ((k, v) :: (m.erase k).entries) := by
  have hnot : (k, v) ∉ (m.erase k).entries := by simp [mem_erase]
  rw [perm_ext_iff_of_nodup m.nodup_keys.of_map
    (nodup_cons.mpr ⟨hnot, (m.erase k).nodup_keys.of_map⟩)]
  rintro ⟨k', v'⟩
  rw [mem_cons, mem_erase, mem_entries_iff, Prod.mk.injEq]
  constructor
  · intro hg
    by_cases hk : k' = k
    · rw [hk, h] at hg
      exact .inl ⟨hk, (Option.some.inj hg).symm⟩
    · exact .inr ⟨hk, hg⟩
  · rintro (⟨rfl, rfl⟩ | ⟨-, hg⟩)
    · exact h
    · exact hg

theorem size_of_get (h : m.get k = some v) : m.size = (m.erase k).size + 1 :=
  (perm_of_get h).length_eq

theorem size_set_of_none (v : α) (h : m.get k = none) : (m.set k v).size = m.size + 1 := by
  rw [size_of_get (get_set_self m k v), erase_set_self, erase_of_get_none h]

theorem sum_of_get (f : κ → α → β)
    (h : m.get k = some v) : m.sum f = f k v + (m.erase k).sum f := by
  rw [sum, ((perm_of_get h).map _).sum_eq, map_cons, sum_cons]
  rfl

theorem sum_set (m : OrderedMap κ α) (k : κ) (v : α) (f : κ → α → β) :
    (m.set k v).sum f = f k v + (m.erase k).sum f := by
  rw [sum_of_get f (get_set_self m k v), erase_set_self]

theorem sum_set_of_none (v : α) (f : κ → α → β)
    (h : m.get k = none) : (m.set k v).sum f = f k v + m.sum f := by
  rw [sum_set, erase_of_get_none h]

/-- Overwriting an entry exchanges its share of the sum. -/
theorem sum_set_of_get (v' : α) (f : κ → α → β)
    (h : m.get k = some v) : (m.set k v').sum f + f k v = m.sum f + f k v' := by
  rw [sum_set, sum_of_get f h, add_comm (f k v' + _), ← add_assoc, add_right_comm]

/-- Writing an entry exchanges the share of the sum that the key had. -/
theorem sum_set_add (m : OrderedMap κ α) (k : κ) (v : α) (f : κ → α → β) :
    (m.set k v).sum f + ((m.get k).map (f k)).getD 0 = m.sum f + f k v := by
  cases h : m.get k with
  | none =>
    rw [sum_set_of_none v f h, add_comm (f k v)]
    exact add_zero _
  | some w => exact sum_set_of_get v f h

theorem sum_congr {f g : κ → α → β}
    (h : ∀ k v, m.get k = some v → f k v = g k v) : m.sum f = m.sum g := by
  unfold sum
  congr 1
  apply map_congr_left
  rintro ⟨k, v⟩ he
  exact h k v (mem_entries_iff.mp he)

theorem sum_eq_zero {f : κ → α → β} (h : ∀ k v, m.get k = some v → f k v = 0) : m.sum f = 0 := by
  rw [sum_congr h]
  simp [sum]

end Totals

theorem sum_le_sum {f g : κ → α → ℤ}
    (h : ∀ k v, m.get k = some v → f k v ≤ g k v) : m.sum f ≤ m.sum g := by
  apply List.sum_le_sum
  rintro ⟨k, v⟩ he
  exact h k v (mem_entries_iff.mp he)

end OrderedMap

end OrderedStore
