import MirageNode.Lib.Fallible
import Mathlib.Data.List.Basic

/-!
# Batched queries and two-pass assembly

Code that decides many items with few queries asks for the rows of all keys at
once and reads each item's row from the answer. The answer for one key is the
one a query for that key alone gives (`dictGet_select`, `mem_select`).

What the answer decides is then written into the slot of the item. A first pass
fills the slots it can and puts the other items off; a second pass fills theirs.
The slots end as if every item had been finished at once (`foldlM_settle`).
-/

namespace Batched

open Fallible List

section Queries

variable {ρ κ β : Type} [DecidableEq κ] {f : ρ → κ} {g : κ → κ} {keys : List κ} {k : κ}

/-- The rows with a key among the given ones. -/
def select (f : ρ → κ) (keys : List κ) (rows : List ρ) : List ρ := rows.filter (f · ∈ keys)

/-- The value of a key in a dictionary that is filled from a list: the last one counts. -/
def dictGet (d : List (κ × β)) (k : κ) : Option β :=
  ((d.filter (·.1 = k)).getLast?).map Prod.snd

theorem mem_of_dictGet {d : List (κ × β)} {v : β} (h : dictGet d k = some v) : (k, v) ∈ d := by
  obtain ⟨⟨k', v'⟩, hlast, rfl⟩ := Option.map_eq_some_iff.mp h
  obtain ⟨hmem, hkey⟩ := mem_filter.mp (mem_of_getLast? hlast)
  rw [← of_decide_eq_true hkey]
  exact hmem

theorem dictGet_ne_none_iff {d : List (κ × β)} : dictGet d k ≠ none ↔ k ∈ d.map Prod.fst := by
  rw [dictGet, ne_eq, Option.map_eq_none_iff, List.getLast?_eq_none_iff, filter_eq_nil_iff]
  simp

/-- Keys under which the rows are returned, where they leave the keys asked for as they are. -/
theorem filter_select (hg : ∀ k ∈ keys, g k = k) (hk : k ∈ keys) (rows : List ρ) :
    (select f keys rows).filter (fun r => g (f r) = k) = rows.filter (f · = k) := by
  rw [select, filter_filter]
  refine filter_congr fun r _ => ?_
  rw [← Bool.decide_and, decide_eq_decide]
  constructor
  · rintro ⟨hr, hmem⟩
    rw [← hr, hg _ hmem]
  · rintro rfl
    exact ⟨hg _ hk, hk⟩

theorem dictGet_map (rows : List ρ) (key : ρ → κ) (v : ρ → β) (k : κ) :
    dictGet (rows.map fun r => (key r, v r)) k = ((rows.filter (key · = k)).getLast?).map v := by
  rw [dictGet, filter_map, List.getLast?_map, Option.map_map]
  rfl

/-- A key's value does not depend on the other keys of the query. -/
theorem dictGet_select (hg : ∀ k ∈ keys, g k = k) (hk : k ∈ keys) (rows : List ρ) (v : ρ → β) :
    dictGet ((select f keys rows).map fun r => (g (f r), v r)) k =
      dictGet ((select f [k] rows).map fun r => (g (f r), v r)) k := by
  rw [dictGet_map, dictGet_map, filter_select hg hk,
    filter_select (forall_mem_singleton.mpr (hg k hk)) (mem_singleton_self k)]

/-- Nor does whether there is a row for it. -/
theorem mem_select (hg : ∀ k ∈ keys, g k = k) (hk : k ∈ keys) (rows : List ρ) :
    k ∈ (select f keys rows).map (fun r => g (f r)) ↔
      k ∈ (select f [k] rows).map (fun r => g (f r)) := by
  have hfound : ∀ ks : List κ, (k ∈ (select f ks rows).map fun r => g (f r)) ↔
      ∃ r, r ∈ (select f ks rows).filter fun r => g (f r) = k := fun ks => by
    simp only [mem_map, mem_filter, decide_eq_true_eq]
  rw [hfound, hfound, filter_select hg hk,
    filter_select (forall_mem_singleton.mpr (hg k hk)) (mem_singleton_self k)]

end Queries

section Passes

variable {ε σ π τ : Type}

/-- The slot the first pass fills: with its verdict, or left empty for an item put off. -/
def slot : Option σ ⊕ π → Option σ
  | .inl filled => filled
  | .inr _ => none

/-- The items put off, each with its position, counted from `n`. -/
def putOff (n : ℕ) : List (Option σ ⊕ π) → List (ℕ × π)
  | [] => []
  | .inl _ :: rest => putOff (n + 1) rest
  | .inr item :: rest => (n, item) :: putOff (n + 1) rest

/-- What becomes of an item after the first pass. -/
def finish (settle : π → Except ε (Option σ × Option τ)) :
    Option σ ⊕ π → Except ε (Option σ × Option τ)
  | .inl filled => .ok (filled, none)
  | .inr item => settle item

/-- One item of the second pass: its slot is filled, and what it leaves behind is appended. -/
def settleStep (settle : π → Except ε (Option σ × Option τ)) (acc : List (Option σ) × List τ)
    (item : ℕ × π) : Except ε (List (Option σ) × List τ) := do
  let (filled, left) ← settle item.2
  return (acc.1.set item.1 filled, acc.2 ++ left.toList)

/-- The second pass finishes every item in its place. -/
theorem foldlM_settle (settle : π → Except ε (Option σ × Option τ)) (ss : List (Option σ ⊕ π))
    (pre : List (Option σ)) (left : List τ) :
    (putOff pre.length ss).foldlM (settleStep settle) (pre ++ ss.map slot, left) =
      (ss.mapM (finish settle)).map fun vs =>
        (pre ++ vs.map Prod.fst, left ++ vs.filterMap Prod.snd) := by
  induction ss generalizing pre left with
  | nil =>
    simp only [putOff, foldlM_nil, map_nil, mapM_nil, append_nil]
    exact congrArg Except.ok (by simp)
  | cons s ss ih =>
    have hlen : ∀ v : Option σ, pre.length + 1 = (pre ++ [v]).length := by simp
    rw [mapM_cons]
    cases s with
    | inl filled =>
      have happ : pre ++ (Sum.inl filled :: ss).map (slot (σ := σ) (π := π)) =
          (pre ++ [filled]) ++ ss.map slot := by simp [slot]
      rw [putOff, hlen filled, happ, ih, finish, ok_bind]
      cases ss.mapM (finish settle) with
      | error e => rfl
      | ok vs => exact congrArg Except.ok (by simp)
    | inr item =>
      rw [putOff, foldlM_cons, settleStep, finish]
      cases settle item with
      | error e => rfl
      | ok v =>
        obtain ⟨filled, rest⟩ := v
        have hset : (pre ++ (Sum.inr item :: ss).map slot).set pre.length filled =
            (pre ++ [filled]) ++ ss.map slot := by simp [slot]
        rw [ok_bind, ok_bind, pure_bind, hset, hlen filled, ih]
        cases ss.mapM (finish settle) with
        | error e => rfl
        | ok vs => exact congrArg Except.ok (by cases rest <;> simp)

theorem mem_putOff {item : π} {ss : List (Option σ ⊕ π)} {n : ℕ} :
    (∃ i, (i, item) ∈ putOff n ss) ↔ Sum.inr item ∈ ss := by
  induction ss generalizing n with
  | nil => simp [putOff]
  | cons s ss ih => cases s <;> simp [putOff, exists_or, ih]

theorem mapM_congr_of_mem {α β : Type} {f g : α → Except ε β} {xs : List α}
    (h : ∀ x ∈ xs, f x = g x) : xs.mapM f = xs.mapM g := by
  induction xs with
  | nil => rfl
  | cons x xs ih =>
    rw [mapM_cons, mapM_cons, h x mem_cons_self,
      ih fun y hy => h y (mem_cons_of_mem x hy)]

theorem mapM_eq_ok_iff {α β : Type} {f : α → Except ε β} {xs : List α} {ys : List β} :
    xs.mapM f = .ok ys ↔ List.Forall₂ (fun x y => f x = .ok y) xs ys := by
  refine ⟨mapM_eq_ok, fun h => ?_⟩
  induction h with
  | nil => rfl
  | cons hx _ ih => simp only [mapM_cons, hx, ih, ok_bind, pure_eq_ok]

/-- A value of the map comes from an element. -/
theorem exists_of_mem_mapM {α β : Type} {f : α → Except ε β} {xs : List α} {ys : List β} {y : β}
    (h : xs.mapM f = .ok ys) (hy : y ∈ ys) : ∃ x ∈ xs, f x = .ok y := by
  induction mapM_eq_ok_iff.mp h with
  | nil => cases hy
  | @cons x y' xs ys' hx hrest ih =>
    rcases mem_cons.mp hy with rfl | hy
    · exact ⟨x, mem_cons_self, hx⟩
    · obtain ⟨x', hx', hfx⟩ := ih (mapM_eq_ok_iff.mpr hrest) hy
      exact ⟨x', mem_cons_of_mem x hx', hfx⟩

/-- Two maps in a row succeed exactly when the map of both does. -/
theorem mapM_mapM_eq_ok {α β γ : Type} {f : α → Except ε β} {g : β → Except ε γ} {xs : List α}
    {zs : List γ} :
    (∃ ys, xs.mapM f = .ok ys ∧ ys.mapM g = .ok zs) ↔
      xs.mapM (fun x => f x >>= g) = .ok zs := by
  induction xs generalizing zs with
  | nil => simp
  | cons x xs ih =>
    simp only [mapM_cons, bind_eq_ok, pure_eq_ok]
    constructor
    · rintro ⟨_, ⟨y, hy, ys, hys, rfl⟩, h⟩
      simp only [mapM_cons, bind_eq_ok, pure_eq_ok] at h
      obtain ⟨z, hz, zs, hzs, rfl⟩ := h
      exact ⟨z, ⟨y, hy, hz⟩, zs, ih.mp ⟨ys, hys, hzs⟩, rfl⟩
    · rintro ⟨z, ⟨y, hy, hz⟩, zs, hzs, rfl⟩
      obtain ⟨ys, hys, hzs⟩ := ih.mpr hzs
      refine ⟨y :: ys, ⟨y, hy, ys, hys, rfl⟩, ?_⟩
      simp only [mapM_cons, bind_eq_ok, pure_eq_ok]
      exact ⟨z, hz, zs, hzs, rfl⟩

end Passes

end Batched
