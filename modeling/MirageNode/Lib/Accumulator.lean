import MirageNode.Lib.OrderedMap
import Mathlib.Tactic.Ring

/-!
# A rate accumulator driven by breakpoints

An accumulator integrates a rate over time. Breakpoints, kept in time order,
change the rate or add a lump when the integration passes them. The
accumulator may stop anywhere and resume later, so breakpoints can lie behind
its cursor: such a breakpoint takes effect at the cursor.

`earnedBy a t` is the value the accumulator will show at `t`, a closed form
over the pending breakpoints. The development rests on three facts.

* Absorbing the first breakpoint and integrating over a gap without breakpoints
  do not change `earnedBy` at later times (`earnedBy_absorb`, `earnedBy_runTo`).
* Booking a window adds the window's own earnings (`earnedBy_book`).
* While no prefix of the pending breakpoints turns the rate negative (`Sound`),
  what is collected only grows and a bound on rates and values (`Bounded`)
  stays one (`Sound.advances_absorb`, `Sound.advances_runTo`).
-/

namespace RateAccumulator

open OrderedStore OrderedMap

/-- What changes when the integration passes a point in time. -/
structure Breakpoint where
  rateDelta : ℤ
  accDelta : ℤ
deriving DecidableEq, Repr

/-- An accumulator: integrated up to `cursor`, running at `rate`, with `acc`
collected so far and `pending` breakpoints keyed by their time and a tag. -/
structure Accumulator (κ : Type*) [LinearOrder κ] where
  cursor : ℤ
  rate : ℤ
  acc : ℤ
  pending : OrderedMap (ℤ ×ₗ κ) Breakpoint

variable {b : Breakpoint} {t r : ℤ}

namespace Accumulator

variable {κ : Type*} [LinearOrder κ] {a : Accumulator κ} {k : ℤ ×ₗ κ}
  {es : List ((ℤ ×ₗ κ) × Breakpoint)}

/-- What one pending breakpoint adds to the value at time `t`. A breakpoint
behind the cursor counts from the cursor. -/
def contribution (cursor t : ℤ) (k : ℤ ×ₗ κ) (b : Breakpoint) : ℤ :=
  if (ofLex k).1 ≤ t then b.accDelta + b.rateDelta * (t - max (ofLex k).1 cursor) else 0

/-- The value at time `t ≥ cursor`, with all breakpoints up to `t` applied. -/
def earnedBy (a : Accumulator κ) (t : ℤ) : ℤ :=
  a.acc + a.rate * (t - a.cursor) + a.pending.sum (contribution a.cursor t)

/-- The rate once every breakpoint up to the key `k` is applied. -/
def rateThrough (a : Accumulator κ) (k : ℤ ×ₗ κ) : ℤ :=
  a.rate + a.pending.sum (fun k' b => if k' ≤ k then b.rateDelta else 0)

/-- Integrates up to a breakpoint ahead of the cursor and applies it. -/
def absorb (a : Accumulator κ) (k : ℤ ×ₗ κ) (b : Breakpoint) : Accumulator κ where
  cursor := max (ofLex k).1 a.cursor
  rate := a.rate + b.rateDelta
  acc := a.acc + a.rate * (max (ofLex k).1 a.cursor - a.cursor) + b.accDelta
  pending := a.pending.erase k

/-- Integrates up to `t` without looking at breakpoints. -/
def runTo (a : Accumulator κ) (t : ℤ) : Accumulator κ :=
  { a with cursor := max t a.cursor, acc := a.acc + a.rate * (max t a.cursor - a.cursor) }

/-- Books a window `[s, e)` that runs at rate `r` and adds the lump `d` at its
end, under two keys of that time. -/
def book (a : Accumulator κ) (s e : ℤ) (ks ke : κ) (r d : ℤ) : Accumulator κ :=
  { a with pending :=
      (a.pending.set (toLex (s, ks)) ⟨r, 0⟩).set (toLex (e, ke)) ⟨-r, d⟩ }

/-- What a window `[s, e)` with rate `r` and end lump `d` has earned by `t`. -/
def windowEarned (s e r d t : ℤ) : ℤ :=
  if s ≤ t then r * (min t e - s) + (if e ≤ t then d else 0) else 0

theorem time_le_of_le {k k' : ℤ ×ₗ κ} (h : k ≤ k') : (ofLex k).1 ≤ (ofLex k').1 := by
  rcases Prod.Lex.le_iff.mp h with hlt | ⟨heq, -⟩
  · exact hlt.le
  · exact heq.le

/-! ## The value at later times is kept -/

/-- Applying the first pending breakpoint keeps the value at every time from
then on. -/
theorem earnedBy_absorb (h : a.pending.entries = (k, b) :: es)
    (ht : (a.absorb k b).cursor ≤ t) : (a.absorb k b).earnedBy t = a.earnedBy t := by
  have hkt : (ofLex k).1 ≤ t := (le_max_left _ _).trans ht
  -- the other breakpoints come later, so they count from the same instant as before
  have hrest : (a.pending.erase k).sum (contribution (max (ofLex k).1 a.cursor) t) =
      (a.pending.erase k).sum (contribution a.cursor t) := by
    apply sum_congr
    intro k' b' hg
    have hle := time_le_of_le (head_lt h hg).le
    simp only [contribution, ← max_assoc, max_eq_left hle]
  simp only [earnedBy, absorb]
  rw [hrest, sum_of_get _ (get_head h), contribution, if_pos hkt]
  ring

/-- Integrating over a gap without breakpoints keeps the value. -/
theorem earnedBy_runTo (hgap : ∀ k b, a.pending.get k = some b → r < (ofLex k).1) :
    (a.runTo r).earnedBy t = a.earnedBy t := by
  have hsame : a.pending.sum (contribution (max r a.cursor) t) =
      a.pending.sum (contribution a.cursor t) := by
    apply sum_congr
    intro k b hg
    have hlt := hgap k b hg
    simp only [contribution, ← max_assoc, max_eq_left hlt.le]
  simp only [earnedBy, runTo]
  rw [hsame]
  ring

variable {s e d : ℤ} {ks ke : κ}

/-- Booking a window that starts no earlier than the cursor adds exactly the
window's earnings. -/
theorem earnedBy_book (hs : a.cursor ≤ s) (hse : s < e) (hfs : a.pending.get (toLex (s, ks)) = none)
    (hfe : a.pending.get (toLex (e, ke)) = none) :
    (a.book s e ks ke r d).earnedBy t = a.earnedBy t + windowEarned s e r d t := by
  have hne : toLex (e, ke) ≠ toLex (s, ks) :=
    fun h => hse.ne' (congrArg Prod.fst (toLex.injective h))
  have hfe' : (a.pending.set (toLex (s, ks)) ⟨r, 0⟩).get (toLex (e, ke)) = none := by
    rw [get_set_of_ne _ hne, hfe]
  simp only [earnedBy, book]
  rw [sum_set_of_none _ _ hfe', sum_set_of_none _ _ hfs]
  simp only [contribution, ofLex_toLex, max_eq_left hs, max_eq_left (hs.trans hse.le), windowEarned]
  by_cases hst : s ≤ t
  · by_cases het : e ≤ t
    · simp only [if_pos hst, if_pos het, min_eq_right het]
      ring
    · simp only [if_pos hst, if_neg het, min_eq_left (not_le.mp het).le]
      ring
  · have het : ¬ e ≤ t := fun h => hst (hse.le.trans h)
    simp only [if_neg hst, if_neg het]
    ring

/-! ## Breakpoints go away one at a time -/

/-- No prefix of the pending breakpoints makes the rate negative, and no lump
is negative. -/
structure Sound (a : Accumulator κ) : Prop where
  rate_nonneg : 0 ≤ a.rate
  through_nonneg : ∀ k, 0 ≤ a.rateThrough k
  lump_nonneg : ∀ k b, a.pending.get k = some b → 0 ≤ b.accDelta

theorem rateThrough_absorb (h : a.pending.entries = (k, b) :: es) (k' : ℤ ×ₗ κ) :
    (a.absorb k b).rateThrough k' = a.rateThrough (max k k') := by
  have hrest : (a.pending.erase k).sum (fun l c => if l ≤ k' then c.rateDelta else 0) =
      (a.pending.erase k).sum (fun l c => if l ≤ max k k' then c.rateDelta else 0) := by
    apply sum_congr
    intro l c hg
    simp [(head_lt h hg).not_ge]
  simp only [rateThrough, absorb]
  rw [hrest, sum_of_get _ (get_head h), if_pos (le_max_left k k')]
  ring

/-- The rate after the first breakpoint is the rate through its key. -/
theorem rate_absorb (h : a.pending.entries = (k, b) :: es) :
    (a.absorb k b).rate = a.rateThrough k := by
  have hrest : (a.pending.erase k).sum (fun l c => if l ≤ k then c.rateDelta else 0) = 0 := by
    apply sum_eq_zero
    intro l c hg
    exact if_neg (head_lt h hg).not_ge
  rw [rateThrough, sum_of_get _ (get_head h), if_pos le_rfl, hrest, add_zero]
  rfl

/-- A booked window switches its rate on at its start and off at its end. -/
theorem rateThrough_book (hse : s < e)
    (hfs : a.pending.get (toLex (s, ks)) = none) (hfe : a.pending.get (toLex (e, ke)) = none)
    (k : ℤ ×ₗ κ) : (a.book s e ks ke r d).rateThrough k =
      a.rateThrough k + if toLex (s, ks) ≤ k then if toLex (e, ke) ≤ k then 0 else r else 0 := by
  have hlt : toLex (s, ks) < toLex (e, ke) := Prod.Lex.lt_iff.mpr (.inl hse)
  have hfe' : (a.pending.set (toLex (s, ks)) ⟨r, 0⟩).get (toLex (e, ke)) = none := by
    rw [get_set_of_ne _ hlt.ne', hfe]
  simp only [rateThrough, book]
  rw [sum_set_of_none _ _ hfe', sum_set_of_none _ _ hfs]
  by_cases he : toLex (e, ke) ≤ k
  · rw [if_pos he, if_pos (hlt.le.trans he), if_pos (hlt.le.trans he), if_pos he]
    ring
  · rw [if_neg he, if_neg he]
    split <;> ring

theorem Sound.absorb (ha : Sound a) (h : a.pending.entries = (k, b) :: es) :
    Sound (a.absorb k b) where
  rate_nonneg := by
    rw [rate_absorb h]
    exact ha.through_nonneg k
  through_nonneg := fun k' => by
    rw [rateThrough_absorb h]
    exact ha.through_nonneg _
  lump_nonneg := fun k' b' hg => ha.lump_nonneg k' b' (get_of_get_erase hg)

theorem Sound.runTo (ha : Sound a) (t : ℤ) : Sound (a.runTo t) :=
  ⟨ha.rate_nonneg, ha.through_nonneg, ha.lump_nonneg⟩

/-- Booking a window keeps the accumulator sound: the window's rate is switched
on before it is switched off. -/
theorem Sound.book (ha : Sound a) (hse : s < e) (hr : 0 ≤ r) (hd : 0 ≤ d)
    (hfs : a.pending.get (toLex (s, ks)) = none) (hfe : a.pending.get (toLex (e, ke)) = none) :
    Sound (a.book s e ks ke r d) := by
  refine ⟨ha.rate_nonneg, ?_, ?_⟩
  · intro k
    have hold := ha.through_nonneg k
    rw [rateThrough_book hse hfs hfe]
    split
    · split <;> linarith
    · linarith
  · intro k b hg
    simp only [Accumulator.book, get_set] at hg
    split at hg
    · cases hg
      exact hd
    · split at hg
      · cases hg
        exact le_rfl
      · exact ha.lump_nonneg k b hg

/-! ## The value never decreases -/

theorem Sound.acc_le_absorb (ha : Sound a) (h : a.pending.entries = (k, b) :: es) :
    a.acc + a.rate * (max (ofLex k).1 a.cursor - a.cursor) ≤ (a.absorb k b).acc := by
  have := ha.lump_nonneg k b (get_head h)
  simp only [Accumulator.absorb]
  linarith

/-- Before the first pending breakpoint the value is linear in time. -/
theorem earnedBy_before (h : ∀ k b, a.pending.get k = some b → t < (ofLex k).1) :
    a.earnedBy t = a.acc + a.rate * (t - a.cursor) := by
  have hsum : a.pending.sum (contribution a.cursor t) = 0 :=
    sum_eq_zero fun k b hg => if_neg (h k b hg).not_ge
  rw [earnedBy, hsum, add_zero]

/-- At the cursor at least the collected amount is earned: what is due there only adds lumps. -/
theorem Sound.acc_le_earnedBy (ha : Sound a) : a.acc ≤ a.earnedBy a.cursor := by
  have hzero : a.pending.sum (fun _ _ => (0 : ℤ)) = 0 := sum_eq_zero fun _ _ _ => rfl
  have hsum : 0 ≤ a.pending.sum (contribution a.cursor a.cursor) := by
    rw [← hzero]
    apply sum_le_sum
    intro k b hg
    unfold contribution
    split
    next hle =>
      rw [max_eq_right hle, sub_self, mul_zero, add_zero]
      exact ha.lump_nonneg k b hg
    next => exact le_rfl
  rw [earnedBy, sub_self, mul_zero, add_zero]
  linarith

/-! ## Bounds -/

/-- No rate and no value from the cursor on exceeds `bound`. -/
structure Bounded (bound : ℤ) (a : Accumulator κ) : Prop where
  rate_le : a.rate ≤ bound
  through_le : ∀ k, a.rateThrough k ≤ bound
  earned_le : ∀ t, a.cursor ≤ t → a.earnedBy t ≤ bound

section Bounds

variable {bound : ℤ}

/-- What is collected is bounded by what is earned. -/
theorem Bounded.acc_le (hb : Bounded bound a) (ha : Sound a) : a.acc ≤ bound :=
  ha.acc_le_earnedBy.trans (hb.earned_le a.cursor le_rfl)

theorem Bounded.absorb (hb : Bounded bound a) (h : a.pending.entries = (k, b) :: es) :
    Bounded bound (a.absorb k b) where
  rate_le := by
    rw [rate_absorb h]
    exact hb.through_le k
  through_le := fun k' => by
    rw [rateThrough_absorb h]
    exact hb.through_le _
  earned_le := fun t ht => by
    rw [earnedBy_absorb h ht]
    exact hb.earned_le t ((le_max_right _ _).trans ht)

theorem Bounded.runTo (hb : Bounded bound a)
    (hgap : ∀ k b, a.pending.get k = some b → r < (ofLex k).1) : Bounded bound (a.runTo r) where
  rate_le := hb.rate_le
  through_le := hb.through_le
  earned_le := fun t ht => by
    rw [earnedBy_runTo hgap]
    exact hb.earned_le t ((le_max_right _ _).trans ht)

/-- Booking a window raises the bound by all that the window earns. -/
theorem Bounded.book (hb : Bounded bound a) (hs : a.cursor ≤ s) (hse : s < e) (hr : 0 ≤ r)
    (hd : 0 ≤ d) (hfs : a.pending.get (toLex (s, ks)) = none)
    (hfe : a.pending.get (toLex (e, ke)) = none) :
    Bounded (bound + (r * (e - s) + d)) (a.book s e ks ke r d) := by
  -- the window is at least one second long, so it earns no less than its rate
  have hall : r ≤ r * (e - s) := le_mul_of_one_le_right hr (by omega)
  refine ⟨?_, fun k => ?_, fun t ht => ?_⟩
  · have := hb.rate_le
    simp only [Accumulator.book]
    linarith
  · have hold := hb.through_le k
    rw [rateThrough_book hse hfs hfe]
    split
    · split <;> linarith
    · linarith
  · have hold := hb.earned_le t ht
    rw [earnedBy_book hs hse hfs hfe, windowEarned]
    split
    next hst =>
      have hlen : r * (min t e - s) ≤ r * (e - s) :=
        mul_le_mul_of_nonneg_left (by omega) hr
      split <;> linarith
    next =>
      have := hr.trans hall
      linarith

end Bounds

/-! ## Advancing -/

/-- `a'` is `a` after some integration: later, with no less collected, still
sound, with no new breakpoint, the same value at every time from its cursor on
and within the same bounds. -/
structure Advances (a a' : Accumulator κ) : Prop where
  cursor_le : a.cursor ≤ a'.cursor
  acc_le : a.acc ≤ a'.acc
  sound : Sound a'
  earned : ∀ t, a'.cursor ≤ t → a'.earnedBy t = a.earnedBy t
  pending_sub : ∀ k b, a'.pending.get k = some b → a.pending.get k = some b
  bounded : ∀ bound, Bounded bound a → Bounded bound a'

theorem Advances.refl (ha : Sound a) : Advances a a :=
  ⟨le_rfl, le_rfl, ha, fun _ _ => rfl, fun _ _ h => h, fun _ h => h⟩

theorem Advances.trans {a b c : Accumulator κ} (hab : Advances a b) (hbc : Advances b c) :
    Advances a c where
  cursor_le := hab.cursor_le.trans hbc.cursor_le
  acc_le := hab.acc_le.trans hbc.acc_le
  sound := hbc.sound
  earned := fun t ht => (hbc.earned t ht).trans (hab.earned t (hbc.cursor_le.trans ht))
  pending_sub := fun k x h => hab.pending_sub k x (hbc.pending_sub k x h)
  bounded := fun bound h => hbc.bounded bound (hab.bounded bound h)

theorem Sound.advances_absorb (ha : Sound a) (h : a.pending.entries = (k, b) :: es) :
    Advances a (a.absorb k b) where
  cursor_le := le_max_right _ _
  acc_le := by
    have hgain := mul_nonneg ha.rate_nonneg (sub_nonneg.mpr (le_max_right (ofLex k).1 a.cursor))
    have := ha.acc_le_absorb h
    linarith
  sound := ha.absorb h
  earned := fun _ ht => earnedBy_absorb h ht
  pending_sub := fun _ _ hg => get_of_get_erase hg
  bounded := fun _ hb => hb.absorb h

theorem Sound.advances_runTo (ha : Sound a)
    (hgap : ∀ k b, a.pending.get k = some b → r < (ofLex k).1) : Advances a (a.runTo r) where
  cursor_le := le_max_right _ _
  acc_le := by
    have := mul_nonneg ha.rate_nonneg (sub_nonneg.mpr (le_max_right r a.cursor))
    simp only [Accumulator.runTo]
    linarith
  sound := ha.runTo r
  earned := fun _ _ => earnedBy_runTo hgap
  pending_sub := fun _ _ h => h
  bounded := fun _ hb => hb.runTo hgap

end Accumulator

end RateAccumulator
