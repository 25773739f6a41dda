import Mathlib.Data.List.MinMax
import Mathlib.Data.List.Sort

/-!
# The first by a key

Two ways to find the element of a list with the least key: a scan that keeps the best one so
far (`List.argmin`, also over a filter, `foldl_scan`), and the head of the sorted list
(`sortedFirst`). Where different elements have different keys both give the same answer, in
whatever order the elements come (`sortedFirst_eq_map_argmin`).
-/

namespace Ranking

open List

variable {α κ : Type*} [LinearOrder κ] {key : α → κ} {l : List α} {a b : α}

/-- The element is in the list and has the least key. -/
structure Least (key : α → κ) (l : List α) (a : α) : Prop where
  mem : a ∈ l
  le : ∀ b ∈ l, key a ≤ key b

/-- Different elements have different keys. -/
def Distinct (key : α → κ) (l : List α) : Prop :=
  ∀ a ∈ l, ∀ b ∈ l, key a = key b → a = b

theorem Least.unique (hkeys : Distinct key l) (ha : Least key l a) (hb : Least key l b) : a = b :=
  hkeys a ha.mem b hb.mem (le_antisymm (ha.le b hb.mem) (hb.le a ha.mem))

theorem least_of_argmin (h : l.argmin key = some a) : Least key l a :=
  ⟨argmin_mem h, fun _ hb => le_of_mem_argmin hb h⟩

theorem argmin_eq_some (hkeys : Distinct key l) : l.argmin key = some a ↔ Least key l a := by
  refine ⟨least_of_argmin, fun h => ?_⟩
  cases hmin : l.argmin key with
  | none =>
    rw [argmin_eq_none.mp hmin] at h
    exact absurd h.mem not_mem_nil
  | some b => rw [h.unique hkeys (least_of_argmin hmin)]

/-- The scan of a loop that skips what it may not take and keeps the best element so far. -/
theorem foldl_scan (p : α → Bool) (step : Option α → α → Option α)
    (hskip : ∀ best a, p a = false → step best a = best)
    (hfirst : ∀ a, p a = true → step none a = some a)
    (hnext : ∀ a b, p a = true → step (some b) a = if key a < key b then some a else some b) :
    l.foldl step none = (l.filter p).argmin key := by
  rw [List.argmin, foldl_filter]
  congr 1
  funext best a
  cases hp : p a with
  | false => exact hskip best a hp
  | true =>
    cases best with
    | none => exact hfirst a hp
    | some b => exact hnext a b hp

/-- The head of the list once it is sorted by the key. -/
def sortedFirst (key : α → κ) (l : List α) : Option α :=
  (l.mergeSort fun a b => key a ≤ key b).head?

theorem sortedFirst_eq_none : sortedFirst key l = none ↔ l = [] := by
  rw [sortedFirst, List.head?_eq_none_iff, ← length_eq_zero_iff, length_mergeSort,
    length_eq_zero_iff]

theorem least_of_sortedFirst (h : sortedFirst key l = some a) : Least key l a := by
  have hsorted : (l.mergeSort fun a b => key a ≤ key b).Pairwise
      fun a b => decide (key a ≤ key b) = true :=
    pairwise_mergeSort (fun a b c => by simpa using le_trans)
      (fun a b => by simpa using le_total _ _) l
  obtain ⟨rest, hrest⟩ := List.head?_eq_some_iff.mp h
  have hmem : ∀ b, b ∈ l ↔ b ∈ a :: rest := fun b => by rw [← hrest, mem_mergeSort]
  rw [hrest, pairwise_cons] at hsorted
  refine ⟨(hmem a).mpr mem_cons_self, fun b hb => ?_⟩
  rcases mem_cons.mp ((hmem b).mp hb) with rfl | hb
  · exact le_rfl
  · exact of_decide_eq_true (hsorted.1 b hb)

/-- Sorting the images of the elements finds the image of what the scan finds. -/
theorem sortedFirst_eq_map_argmin {β : Type*} (f : α → β) {key' : β → κ} {images : List β}
    (hkey : ∀ a, key' (f a) = key a) (hkeys : Distinct key l)
    (hmem : ∀ b, b ∈ images ↔ ∃ a ∈ l, b = f a) :
    sortedFirst key' images = (l.argmin key).map f := by
  cases hmin : l.argmin key with
  | none =>
    refine sortedFirst_eq_none.mpr (eq_nil_iff_forall_not_mem.mpr fun b hb => ?_)
    obtain ⟨a, ha, -⟩ := (hmem b).mp hb
    rw [argmin_eq_none.mp hmin] at ha
    exact not_mem_nil ha
  | some a =>
    have hleast := least_of_argmin hmin
    have ha : f a ∈ images := (hmem _).mpr ⟨a, hleast.mem, rfl⟩
    cases hfirst : sortedFirst key' images with
    | none =>
      rw [sortedFirst_eq_none.mp hfirst] at ha
      exact absurd ha not_mem_nil
    | some b =>
      have hb := least_of_sortedFirst hfirst
      obtain ⟨c, hc, rfl⟩ := (hmem b).mp hb.mem
      have hle := hb.le _ ha
      rw [hkey, hkey] at hle
      rw [hkeys c hc a hleast.mem (le_antisymm hle (hleast.le c hc)), Option.map_some]

end Ranking
