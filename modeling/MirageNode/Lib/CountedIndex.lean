import MirageNode.Lib.OrderedMap

/-!
# Relations kept under two orders, with a counter

A store that has to list a relation from both ends keeps it twice, once under each
order of the key, and keeps the number of records of each row beside it, so that a
limit can be checked without an iteration. `Mirror` says that two such indexes hold
the same pairs, `RowCount` that the counter of a row is the number of its records.
Both survive the writes that go to all the maps at once.
-/

namespace OrderedStore

open OrderedMap

namespace OrderedMap

section Has

variable {κ α : Type*} [LinearOrder κ]

theorem has_set (m : OrderedMap κ α) (k k' : κ) (v : α) :
    (m.set k v).has k' = (decide (k' = k) || m.has k') := by
  unfold has
  rw [get_set]
  split <;> simp_all

theorem has_set_iff {m : OrderedMap κ α} {k k' : κ} {v : α} :
    (m.set k v).has k' = true ↔ k' = k ∨ m.has k' = true := by
  simp [has_set]

theorem has_erase (m : OrderedMap κ α) (k k' : κ) :
    (m.erase k).has k' = (!decide (k' = k) && m.has k') := by
  unfold has
  rw [get_erase]
  split <;> simp_all

theorem has_eq_false_iff {m : OrderedMap κ α} {k : κ} : m.has k = false ↔ m.get k = none := by
  rw [has, Option.isSome_eq_false_iff, Option.isNone_iff_eq_none]

end Has

/-! ## Counters -/

variable {κ : Type*} [LinearOrder κ]

/-- The number under a key, where no record stands for zero. -/
def count (m : OrderedMap κ ℕ) (k : κ) : ℕ := (m.get k).getD 0

/-- Writes a number, and no record for zero. -/
def setCount (m : OrderedMap κ ℕ) (k : κ) (n : ℕ) : OrderedMap κ ℕ :=
  if n = 0 then m.erase k else m.set k n

@[simp] theorem count_empty (k : κ) : (empty : OrderedMap κ ℕ).count k = 0 := rfl

theorem count_set (m : OrderedMap κ ℕ) (k k' : κ) (n : ℕ) :
    (m.set k n).count k' = if k' = k then n else m.count k' := by
  unfold count
  rw [get_set]
  split <;> rfl

theorem count_setCount (m : OrderedMap κ ℕ) (k k' : κ) (n : ℕ) :
    (m.setCount k n).count k' = if k' = k then n else m.count k' := by
  unfold setCount
  split
  · next hn =>
    unfold count
    rw [get_erase]
    split <;> simp [hn]
  · exact count_set m k k' n

@[simp] theorem count_setCount_self (m : OrderedMap κ ℕ) (k : κ) (n : ℕ) :
    (m.setCount k n).count k = n := by
  rw [count_setCount, if_pos rfl]

theorem count_setCount_of_ne {m : OrderedMap κ ℕ} {k k' : κ} (n : ℕ) (h : k' ≠ k) :
    (m.setCount k n).count k' = m.count k' := by
  rw [count_setCount, if_neg h]

end OrderedMap

/-! ## Two orders -/

section Mirror

variable {κ ρ α β : Type*} [LinearOrder κ] [LinearOrder ρ] {e : κ ≃ ρ} {F : OrderedMap κ α}
  {R : OrderedMap ρ β}

/-- Both indexes hold the same keys, up to their order. -/
def Mirror (e : κ ≃ ρ) (F : OrderedMap κ α) (R : OrderedMap ρ β) : Prop :=
  ∀ k, F.has k = R.has (e k)

theorem Mirror.empty : Mirror e (.empty : OrderedMap κ α) (.empty : OrderedMap ρ β) :=
  fun _ => rfl

theorem Mirror.set (h : Mirror e F R) (k : κ) (v : α) (w : β) :
    Mirror e (F.set k v) (R.set (e k) w) := by
  intro k'
  simp only [has_set, h k', EmbeddingLike.apply_eq_iff_eq]

theorem Mirror.erase (h : Mirror e F R) (k : κ) : Mirror e (F.erase k) (R.erase (e k)) := by
  intro k'
  simp only [has_erase, h k', EmbeddingLike.apply_eq_iff_eq]

/-- Replacing a value changes no key. -/
theorem Mirror.update (h : Mirror e F R) {k : κ} (v : α) (hk : F.has k = true) :
    Mirror e (F.set k v) R := by
  intro k'
  rw [has_set, ← h k']
  by_cases hk' : k' = k
  · simp [hk', hk]
  · simp [hk']

end Mirror

/-! ## Rows -/

section RowCount

variable {ι κ α : Type*} [LinearOrder ι] [LinearOrder κ] {R : OrderedMap (ι ×ₗ κ) α}
  {C : OrderedMap ι ℕ}

/-- The counter of every row is the number of its records. -/
def RowCount (R : OrderedMap (ι ×ₗ κ) α) (C : OrderedMap ι ℕ) : Prop :=
  ∀ i, C.count i = (R.slice i).size

theorem RowCount.empty : RowCount (.empty : OrderedMap (ι ×ₗ κ) α) .empty :=
  fun _ => rfl

variable {k : κ} {i : ι}

theorem RowCount.set (h : RowCount R C) (v : α) (hnew : R.get (toLex (i, k)) = none) :
    RowCount (R.set (toLex (i, k)) v) (C.setCount i (C.count i + 1)) := by
  intro j
  rw [slice_set, count_setCount]
  rcases eq_or_ne j i with rfl | hne
  · rw [if_pos rfl, Function.update_self,
      size_set_of_none v ((get_slice R j k).trans hnew), h j]
  · rw [if_neg hne, Function.update_of_ne hne, h j]

variable {v : α}

/-- Replacing a value changes no count. -/
theorem RowCount.update (h : RowCount R C) (w : α)
    (hold : R.get (toLex (i, k)) = some v) : RowCount (R.set (toLex (i, k)) w) C := by
  intro j
  rw [slice_set]
  rcases eq_or_ne j i with rfl | hne
  · have hslice : (R.slice j).get k = some v := (get_slice R j k).trans hold
    rw [Function.update_self, h j, size_of_get hslice,
      size_of_get (get_set_self (R.slice j) k w), erase_set_self]
  · rw [Function.update_of_ne hne, h j]

theorem RowCount.pos (h : RowCount R C) (hold : R.get (toLex (i, k)) = some v) : 0 < C.count i := by
  have hslice : (R.slice i).get k = some v := (get_slice R i k).trans hold
  rw [h i, size_of_get hslice]
  exact Nat.succ_pos _

theorem RowCount.erase (h : RowCount R C) (hold : R.get (toLex (i, k)) = some v) :
    RowCount (R.erase (toLex (i, k))) (C.setCount i (C.count i - 1)) := by
  intro j
  rw [slice_erase, count_setCount]
  rcases eq_or_ne j i with rfl | hne
  · have hslice : (R.slice j).get k = some v := (get_slice R j k).trans hold
    rw [if_pos rfl, Function.update_self, h j, size_of_get hslice, Nat.add_sub_cancel]
  · rw [if_neg hne, Function.update_of_ne hne, h j]

end RowCount

end OrderedStore
