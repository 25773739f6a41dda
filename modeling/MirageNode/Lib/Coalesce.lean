import Mathlib.Data.List.Forall2
import Mathlib.Data.List.Induction
import Mathlib.Data.List.Sort
import Mathlib.Tactic.Common

/-!
# Coalescing a sorted list

A pass over a sorted list that holds on to the item it kept last. The next item is either
absorbed by it (`absorb last x = some merged`) or kept in its turn (`none`).

* `foldl_keep` ties the loop over a growing list to the recursion `coalesce`.
* `coalesce_pairwise`: what a refusal to absorb says about all later items holds between any
  two items kept.
* `coalesce_forall`: what all items of the input satisfy and merging keeps, all items kept
  satisfy. An item is absorbed only near an item before it, so a condition on such items is all
  that the merge may ask for.
* `coalesce_exists`: no item is lost, if a merged item makes up for both.
-/

namespace Coalesce

open List

variable {α : Type} {absorb : α → α → Option α}

/-- The pass, with `last` kept last. -/
def coalesceFrom (absorb : α → α → Option α) (last : α) : List α → List α
  | [] => [last]
  | x :: xs =>
    match absorb last x with
    | some merged => coalesceFrom absorb merged xs
    | none => last :: coalesceFrom absorb x xs

/-- The pass over a whole list. -/
def coalesce (absorb : α → α → Option α) : List α → List α
  | [] => []
  | x :: xs => coalesceFrom absorb x xs

/-- One turn of the loop on the list of the items kept, the last one in front. -/
def keep (absorb : α → α → Option α) : List α → α → List α
  | [], x => [x]
  | last :: kept, x =>
    match absorb last x with
    | some merged => merged :: kept
    | none => x :: last :: kept

variable {last x : α}

theorem coalesceFrom_of_some {merged : α} (h : absorb last x = some merged) (xs : List α) :
    coalesceFrom absorb last (x :: xs) = coalesceFrom absorb merged xs := by
  rw [coalesceFrom, h]

theorem coalesceFrom_of_none (h : absorb last x = none) (xs : List α) :
    coalesceFrom absorb last (x :: xs) = last :: coalesceFrom absorb x xs := by
  rw [coalesceFrom, h]

theorem foldl_keep_cons (last : α) (kept xs : List α) :
    (xs.foldl (keep absorb) (last :: kept)).reverse =
      kept.reverse ++ coalesceFrom absorb last xs := by
  induction xs generalizing last kept with
  | nil => simp [coalesceFrom]
  | cons x xs ih =>
    rw [foldl_cons, keep]
    cases h : absorb last x with
    | some merged => rw [coalesceFrom_of_some h]; exact ih merged kept
    | none =>
      rw [coalesceFrom_of_none h]
      refine (ih x (last :: kept)).trans ?_
      rw [reverse_cons, append_assoc, singleton_append]

/-- The loop gives the pass. -/
theorem foldl_keep (xs : List α) : (xs.foldl (keep absorb) []).reverse = coalesce absorb xs := by
  cases xs with
  | nil => rfl
  | cons x xs => exact foldl_keep_cons x [] xs

section Order

variable {κ : Type} [Preorder κ] {key : α → κ} {R : α → α → Prop}
  (hkey : ∀ a x b, absorb a x = some b → key b = key a)

include hkey

variable {xs : List α}

theorem sorted_merged {merged : α} (habs : absorb last x = some merged)
    (hsorted : (last :: x :: xs).Pairwise fun a b => key a ≤ key b) :
    (merged :: xs).Pairwise fun a b => key a ≤ key b := by
  obtain ⟨hlast, htail⟩ := pairwise_cons.mp hsorted
  refine pairwise_cons.mpr ⟨fun z hz => ?_, (pairwise_cons.mp htail).2⟩
  rw [hkey last x merged habs]
  exact hlast z (mem_cons_of_mem x hz)

theorem coalesceFrom_pairwise
    (hsep : ∀ a x z, absorb a x = none → key a ≤ key x → key x ≤ key z → R a z)
    (hsorted : (last :: xs).Pairwise fun a b => key a ≤ key b) :
    (∀ z ∈ coalesceFrom absorb last xs, key last ≤ key z) ∧
      (coalesceFrom absorb last xs).Pairwise R := by
  induction xs generalizing last with
  | nil => simp [coalesceFrom]
  | cons x xs ih =>
    obtain ⟨hlast, htail⟩ := pairwise_cons.mp hsorted
    have hx : key last ≤ key x := hlast x mem_cons_self
    cases habs : absorb last x with
    | some merged =>
      have hmerged : key merged = key last := hkey last x merged habs
      rw [coalesceFrom_of_some habs, ← hmerged]
      exact ih (sorted_merged hkey habs hsorted)
    | none =>
      obtain ⟨hge, hpair⟩ := ih htail
      rw [coalesceFrom_of_none habs]
      refine ⟨fun z hz => ?_, pairwise_cons.mpr ⟨fun z hz => hsep last x z habs hx
        (hge z hz), hpair⟩⟩
      rcases mem_cons.mp hz with rfl | hz
      · exact le_rfl
      · exact hx.trans (hge z hz)

/-- What a refusal to absorb says about every later item holds between any two items kept. -/
theorem coalesce_pairwise
    (hsep : ∀ a x z, absorb a x = none → key a ≤ key x → key x ≤ key z → R a z)
    (hsorted : xs.Pairwise fun a b => key a ≤ key b) : (coalesce absorb xs).Pairwise R := by
  cases xs with
  | nil => exact .nil
  | cons x xs => exact (coalesceFrom_pairwise hkey hsep hsorted).2

/-! ## The items kept -/

variable {P : α → Prop} {near : α → α → Prop} {fit : α → Prop}

theorem coalesceFrom_forall
    (hnear : ∀ a x b, absorb a x = some b → near a x ∧ ∀ z, near b z → near a z ∨ near x z)
    (hmerge : ∀ a x b, P a → P x → key a ≤ key x → fit x → absorb a x = some b → P b)
    (hall : ∀ x ∈ last :: xs, P x) (hsorted : (last :: xs).Pairwise fun a b => key a ≤ key b)
    (hfit : (last :: xs).Pairwise fun a x => near a x → fit x) :
    ∀ z ∈ coalesceFrom absorb last xs, P z := by
  induction xs generalizing last with
  | nil => exact hall
  | cons x xs ih =>
    obtain ⟨hlast, hrest⟩ := forall_mem_cons.mp hall
    obtain ⟨hx, hxs⟩ := forall_mem_cons.mp hrest
    obtain ⟨hfits, hfitTail⟩ := pairwise_cons.mp hfit
    have hle := (pairwise_cons.mp hsorted).1 x mem_cons_self
    cases habs : absorb last x with
    | some merged =>
      obtain ⟨hclose, hspan⟩ := hnear last x merged habs
      -- what is near the merged item was near one of the two
      have hfit' : (merged :: xs).Pairwise fun a x => near a x → fit x := by
        obtain ⟨hfitx, hfitRest⟩ := pairwise_cons.mp hfitTail
        refine pairwise_cons.mpr ⟨fun z hz hmz => ?_, hfitRest⟩
        rcases hspan z hmz with hlz | hxz
        · exact hfits z (mem_cons_of_mem x hz) hlz
        · exact hfitx z hz hxz
      have hmerged : P merged :=
        hmerge last x merged hlast hx hle (hfits x mem_cons_self hclose) habs
      rw [coalesceFrom_of_some habs]
      exact ih (forall_mem_cons.mpr ⟨hmerged, hxs⟩) (sorted_merged hkey habs hsorted) hfit'
    | none =>
      rw [coalesceFrom_of_none habs]
      exact forall_mem_cons.mpr
        ⟨hlast, ih hrest (pairwise_cons.mp hsorted).2 hfitTail⟩

theorem coalesce_forall
    (hnear : ∀ a x b, absorb a x = some b → near a x ∧ ∀ z, near b z → near a z ∨ near x z)
    (hmerge : ∀ a x b, P a → P x → key a ≤ key x → fit x → absorb a x = some b → P b)
    (hall : ∀ x ∈ xs, P x) (hsorted : xs.Pairwise fun a b => key a ≤ key b)
    (hfit : xs.Pairwise fun a x => near a x → fit x) : ∀ z ∈ coalesce absorb xs, P z := by
  cases xs with
  | nil => exact nofun
  | cons x xs => exact coalesceFrom_forall hkey hnear hmerge hall hsorted hfit

theorem coalesceFrom_exists [Std.Refl R] [IsTrans α R]
    (hmerge : ∀ a x b, key a ≤ key x → absorb a x = some b → R a b ∧ R x b)
    (hsorted : (last :: xs).Pairwise fun a b => key a ≤ key b) :
    ∀ x ∈ last :: xs, ∃ z ∈ coalesceFrom absorb last xs, R x z := by
  induction xs generalizing last with
  | nil => exact fun x hx => ⟨x, hx, refl_of R x⟩
  | cons y xs ih =>
    obtain ⟨hle, htail⟩ := pairwise_cons.mp hsorted
    cases habs : absorb last y with
    | some merged =>
      obtain ⟨hlast, hy⟩ := hmerge last y merged (hle y mem_cons_self) habs
      obtain ⟨hmerged, hrest⟩ := forall_mem_cons.mp (ih (sorted_merged hkey habs hsorted))
      obtain ⟨z, hz, hmz⟩ := hmerged
      rw [coalesceFrom_of_some habs]
      exact forall_mem_cons.mpr ⟨⟨z, hz, trans_of R hlast hmz⟩,
        forall_mem_cons.mpr ⟨⟨z, hz, trans_of R hy hmz⟩, hrest⟩⟩
    | none =>
      rw [coalesceFrom_of_none habs]
      refine forall_mem_cons.mpr ⟨⟨last, mem_cons_self, refl_of R last⟩, fun x hx => ?_⟩
      obtain ⟨z, hz, hxz⟩ := ih htail x hx
      exact ⟨z, mem_cons_of_mem last hz, hxz⟩

theorem coalesce_exists [Std.Refl R] [IsTrans α R]
    (hmerge : ∀ a x b, key a ≤ key x → absorb a x = some b → R a b ∧ R x b)
    (hsorted : xs.Pairwise fun a b => key a ≤ key b) :
    ∀ x ∈ xs, ∃ z ∈ coalesce absorb xs, R x z := by
  cases xs with
  | nil => exact nofun
  | cons x xs => exact coalesceFrom_exists hkey hmerge hsorted

end Order

end Coalesce
