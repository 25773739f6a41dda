import Mathlib.Data.List.Sort
import MirageNode.Lib.CountedIndex

/-!
# Bounded queues kept as stamped sets

A queue that holds each element once and drops its oldest one above a cap. A store keeps
it as a map from the elements to stamps, with the next stamp beside it: a new element takes
the next stamp, so the order of the stamps is the order of the queue. `Stamped` ties the
two, and each write to the map is a step of the queue.
-/

namespace BoundedQueue

open OrderedStore OrderedMap List

/-! ## The queue -/

section

variable {κ : Type*} [DecidableEq κ] {cap : ℕ} {k : κ} {q : List κ}

/-- A new element goes to the end, and the oldest one leaves if there are then more than
`cap`. -/
def push (cap : ℕ) (k : κ) (q : List κ) : List κ :=
  if k ∈ q then q
  else if cap < (q ++ [k]).length then (q ++ [k]).tail else q ++ [k]

theorem push_of_mem (cap : ℕ) (h : k ∈ q) : push cap k q = q := if_pos h

theorem push_of_room (hk : k ∉ q) (h : q.length < cap) : push cap k q = q ++ [k] := by
  rw [push, if_neg hk, if_neg (by simpa using Nat.succ_le_of_lt h)]

/-- With a cap of at least one the element that leaves is another one. -/
theorem push_of_full (hcap : 0 < cap) (hk : k ∉ q) (h : cap ≤ q.length) :
    ∃ oldest rest, q = oldest :: rest ∧ oldest ≠ k ∧ push cap k q = rest ++ [k] := by
  cases q with
  | nil => exact absurd h (not_le.mpr hcap)
  | cons oldest rest =>
    refine ⟨oldest, rest, rfl, fun heq => hk (heq ▸ mem_cons_self), ?_⟩
    rw [push, if_neg hk, if_pos (by simpa using Nat.lt_succ_of_le h)]
    rfl

theorem length_push_le (cap : ℕ) (k : κ) (q : List κ) :
    (push cap k q).length ≤ max cap q.length := by
  unfold push
  split
  · exact le_max_right _ _
  · split
    · rw [length_tail, length_append]
      exact le_max_right _ _
    next h => exact (not_lt.mp h).trans (le_max_left _ _)

end

/-! ## Least elements -/

section

variable {β : Type*}

/-- One step of a search for the element with the least value, the first of those that
have it. -/
def keepLower (f : β → ℕ) (best : Option β) (b : β) : Option β :=
  match best with
  | none => some b
  | some b' => if f b < f b' then some b else best

theorem foldl_keepLower (f : β → ℕ) (bs : List β) (b : β) :
    ∃ b' ∈ b :: bs, bs.foldl (keepLower f) (some b) = some b' ∧ ∀ c ∈ b :: bs, f b' ≤ f c := by
  induction bs generalizing b with
  | nil => exact ⟨b, mem_cons_self, rfl, by simp⟩
  | cons c bs ih =>
    rw [foldl_cons]
    by_cases hlower : f c < f b
    · obtain ⟨b', hmem, hfold, hleast⟩ := ih c
      refine ⟨b', mem_cons_of_mem _ hmem, ?_, ?_⟩
      · rw [keepLower, if_pos hlower, hfold]
      · refine forall_mem_cons.mpr ⟨?_, hleast⟩
        exact (hleast c mem_cons_self).trans hlower.le
    · obtain ⟨b', hmem, hfold, hleast⟩ := ih b
      obtain ⟨hb, hbs⟩ := forall_mem_cons.mp hleast
      refine ⟨b', ?_, ?_, ?_⟩
      · rcases mem_cons.mp hmem with rfl | hmem
        · exact mem_cons_self
        · exact mem_cons_of_mem _ (mem_cons_of_mem _ hmem)
      · rw [keepLower, if_neg hlower, hfold]
      · exact forall_mem_cons.mpr ⟨hb, forall_mem_cons.mpr
          ⟨hb.trans (not_lt.mp hlower), hbs⟩⟩

/-- The search finds the element that is below all others. -/
theorem foldl_keepLower_eq {f : β → ℕ} {bs : List β} {b : β} (hb : b ∈ bs)
    (hleast : ∀ c ∈ bs, f c ≤ f b → c = b) : bs.foldl (keepLower f) none = some b := by
  cases bs with
  | nil => cases hb
  | cons c bs =>
    obtain ⟨b', hmem, hfold, hle⟩ := foldl_keepLower f bs c
    rw [foldl_cons]
    exact hfold.trans (congrArg some (hleast b' hmem (hle b hb)))

end

/-! ## Stamps -/

variable {κ : Type*} [LinearOrder κ] {stamps : OrderedMap κ ℕ} {next : ℕ} {q : List κ} {k : κ}

/-- The map holds the elements of the queue, stamped in their order below `next`. -/
structure Stamped (stamps : OrderedMap κ ℕ) (next : ℕ) (q : List κ) : Prop where
  mem : ∀ k, k ∈ q ↔ stamps.has k = true
  order : q.Pairwise fun a b => stamps.count a < stamps.count b
  below : ∀ k s, stamps.get k = some s → s < next

/-- The elements of the map in the order of their stamps. -/
def byStamp (stamps : OrderedMap κ ℕ) : List κ :=
  (stamps.entries.insertionSort fun a b => a.2 ≤ b.2).map Prod.fst

namespace Stamped

theorem empty (next : ℕ) : Stamped (.empty : OrderedMap κ ℕ) next [] :=
  ⟨fun _ => iff_of_false not_mem_nil Bool.false_ne_true, .nil, fun _ _ h => nomatch h⟩

section

variable (h : Stamped stamps next q)

include h

theorem nodup_stamps : (q.map stamps.count).Nodup :=
  pairwise_map.mpr (h.order.imp ne_of_lt)

theorem nodup : q.Nodup := h.nodup_stamps.of_map

/-- No two elements have one stamp. -/
theorem injective {k k' : κ} {s : ℕ} (hk : stamps.get k = some s)
    (hk' : stamps.get k' = some s) : k = k' := by
  have hmem := (h.mem k).mpr (has_iff.mpr ⟨s, hk⟩)
  have hmem' := (h.mem k').mpr (has_iff.mpr ⟨s, hk'⟩)
  refine inj_on_of_nodup_map h.nodup_stamps hmem hmem' ?_
  rw [OrderedMap.count, OrderedMap.count, hk, hk']

theorem perm : (stamps.entries.map Prod.fst).Perm q := by
  refine (perm_ext_iff_of_nodup stamps.nodup_keys h.nodup).mpr fun k => ?_
  rw [h.mem, has_iff]
  simp [mem_entries_iff]

theorem size_eq : stamps.size = q.length := by
  have hlength := h.perm.length_eq
  rwa [length_map] at hlength

/-- Sorting by the stamps gives the queue. -/
theorem byStamp_eq : byStamp stamps = q := by
  have hperm := perm_insertionSort (fun a b : κ × ℕ => a.2 ≤ b.2) stamps.entries
  have hsorted : (byStamp stamps).Pairwise fun a b => stamps.count a ≤ stamps.count b := by
    refine pairwise_map.mpr (List.Pairwise.imp_of_mem ?_ (pairwise_insertionSort _ _))
    rintro ⟨a, s⟩ ⟨b, t⟩ ha hb hle
    have hget := mem_entries_iff.mp (hperm.mem_iff.mp ha)
    have hget' := mem_entries_iff.mp (hperm.mem_iff.mp hb)
    simpa [OrderedMap.count, hget, hget'] using hle
  refine List.Perm.eq_of_pairwise ?_ hsorted (h.order.imp le_of_lt) ((hperm.map _).trans h.perm)
  intro a b ha hb hle hge
  have ha := ((hperm.map Prod.fst).trans h.perm).mem_iff.mp ha
  exact inj_on_of_nodup_map h.nodup_stamps ha hb (le_antisymm hle hge)

/-- A new element takes the next stamp. -/
theorem push (hk : k ∉ q) : Stamped (stamps.set k next) (next + 1) (q ++ [k]) := by
  have hother : ∀ a ∈ q, (stamps.set k next).count a = stamps.count a := by
    intro a ha
    have hne : a ≠ k := fun heq => hk (heq ▸ ha)
    rw [OrderedMap.count, get_set_of_ne next hne, ← OrderedMap.count]
  refine ⟨fun a => ?_, ?_, fun a s hget => ?_⟩
  · rw [has_set_iff, mem_append, mem_singleton, h.mem, or_comm]
  · refine pairwise_append.mpr ⟨?_, pairwise_singleton _ _, ?_⟩
    · refine h.order.imp_of_mem fun {a b} ha hb hlt => ?_
      rwa [hother a ha, hother b hb]
    · intro a ha b hb
      obtain rfl := mem_singleton.mp hb
      obtain ⟨s, hs⟩ := has_iff.mp ((h.mem a).mp ha)
      rw [hother a ha, OrderedMap.count, hs, OrderedMap.count, get_set_self]
      exact h.below a s hs
  · rcases get_set_cases hget with ⟨-, rfl⟩ | ⟨-, hget⟩
    · exact Nat.lt_succ_self s
    · exact (h.below a s hget).trans (Nat.lt_succ_self next)

theorem erase (k : κ) : Stamped (stamps.erase k) next (q.erase k) := by
  refine ⟨fun a => ?_, ?_, fun a s hget => ?_⟩
  · rw [h.nodup.mem_erase_iff, h.mem, has_erase]
    simp
  · refine (h.order.sublist erase_sublist).imp_of_mem fun {a b} ha hb hlt => ?_
    have ha := (h.nodup.mem_erase_iff.mp ha).1
    have hb := (h.nodup.mem_erase_iff.mp hb).1
    simpa only [OrderedMap.count, get_erase_of_ne ha, get_erase_of_ne hb]
      using hlt
  · exact h.below a s (get_of_get_erase hget)

end

/-- The first element has the least stamp. -/
theorem head_least (h : Stamped stamps next (k :: q)) {a : κ} {s : ℕ}
    (ha : stamps.get a = some s) (hle : s ≤ stamps.count k) : a = k := by
  have hmem := (h.mem a).mpr (has_iff.mpr ⟨s, ha⟩)
  rcases mem_cons.mp hmem with heq | hmem
  · exact heq
  · have hlt := rel_of_pairwise_cons h.order hmem
    rw [OrderedMap.count.eq_def stamps a, ha] at hlt
    exact absurd hle (not_le.mpr hlt)

theorem get_head (h : Stamped stamps next (k :: q)) : stamps.get k = some (stamps.count k) := by
  obtain ⟨s, hs⟩ := has_iff.mp ((h.mem k).mp mem_cons_self)
  rw [OrderedMap.count, hs]
  rfl

end Stamped

end BoundedQueue
