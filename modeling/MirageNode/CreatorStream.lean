import MirageNode.SafeMath
import MirageNode.Lib.Accumulator
import Mathlib.Data.List.TakeWhile
import Mathlib.Algebra.BigOperators.Ring.List

/-!
# The creator fee stream

`keeper/creator_stream.go`. A subscription tranche books a per-second rate and
two breakpoints; epochs draw whole tokens from the accumulator as time passes.
The stream is a rate accumulator (`RateAccumulator.Accumulator`) in units of
`10 ^ -18` token, together with the whole tokens already handed out.

Amounts are `sdkmath.Int`, whose operations panic above 256 bits (`checkedInt`).
Breakpoints are keyed by time and a sequence number, and the store iterates
them in that order.

Integrating the stream under any breakpoint budget is an advance of the accumulator
(`settle_advances`, `draw_ok`), so over any run its value is the sum of what the booked
tranches have earned (`StreamRun.inv`), and exactly the booked total is drawn once
everything has elapsed. There are exceptions (`stream_not_exact`): at block time zero the
store cannot tell a stream anchored at zero from one that never ran, a boundary may lie
before the anchor, and the booked amounts may be too large.
-/

namespace MirageNode

open OrderedStore OrderedMap RateAccumulator RateAccumulator.Accumulator Fallible List

/-! ## 1. The stream and its operations -/

def creatorStreamScale : ℤ := 10 ^ 18

/-- The two edges of a tranche (`creatorStreamStart`, `creatorStreamEnd`). -/
inductive StreamEdge where
  | start
  | finish
deriving DecidableEq, Repr

/-- The edge's byte in the breakpoint sequence number. -/
def StreamEdge.byte : StreamEdge → ℕ
  | start => 0
  | finish => 1

/-- `id<<1|kind`, in 64 bits. -/
def breakpointSeq (id : ℕ) (edge : StreamEdge) : ℕ :=
  id <<< 1 % 2 ^ 64 ||| edge.byte

/-- The stored stream: the accumulator's cursor (`creator_stream_ts`, zero when
it never ran), rate, accumulated amount and pending breakpoints (`cstrend|`),
and the amount handed out so far. -/
structure CreatorStream extends Accumulator ℕ where
  paid : ℤ

/-- The stream of a store that has none of its keys. -/
def CreatorStream.empty : CreatorStream where
  cursor := 0
  rate := 0
  acc := 0
  pending := .empty
  paid := 0

def setCreatorStreamCursor (s : CreatorStream) (at_ : ℤ) : Except CoreError CreatorStream := do
  failIf (at_ < 0) .streamCursorNegative
  return { s with cursor := at_ }

def anchorCreatorStream (s : CreatorStream) (at_ : ℤ) : Except CoreError CreatorStream := do
  let s ← setCreatorStreamCursor s at_
  return { s with rate := 0, acc := 0, paid := 0 }

/-- Anchors a stream that never ran at `now`, as a booking and a new epoch grid
do; a running stream is left alone. -/
def anchorIfUnused (s : CreatorStream) (now : ℤ) : Except CoreError CreatorStream :=
  if s.cursor = 0 then anchorCreatorStream s now else .ok s

/-- The per-second rate of a tranche, rounded down. -/
def trancheRate (creatorAmt start stop : ℤ) : ℤ :=
  (creatorAmt * creatorStreamScale).tdiv (stop - start)

/-- What the rounded rate leaves undelivered over the tranche's duration. -/
def trancheDeficit (creatorAmt start stop : ℤ) : ℤ :=
  creatorAmt * creatorStreamScale - trancheRate creatorAmt start stop * (stop - start)

/-- `ScheduleCreatorStreamTranche`, at block time `now`. -/
def scheduleCreatorStreamTranche (now : ℤ) (s : CreatorStream) (id : ℕ)
    (creatorAmt start stop : ℤ) : Except CoreError CreatorStream := do
  failIf (creatorAmt < 0) .creatorAmountNegative
  failIf (stop ≤ start) .trancheEmptyWindow
  if creatorAmt = 0 then .ok s
  else do
    let s ← anchorIfUnused s now
    let scaledTotal ← checkedInt (creatorAmt * creatorStreamScale)
    let rate := scaledTotal.tdiv (stop - start)
    let flat ← checkedInt (rate * (stop - start))
    let deficit ← checkedInt (scaledTotal - flat)
    failIf (deficit < 0) (.streamDeficit id)
    let pending := s.pending.set (toLex (start, breakpointSeq id .start)) ⟨rate, 0⟩
    let pending := pending.set (toLex (stop, breakpointSeq id .finish)) ⟨-rate, deficit⟩
    return { s with pending := pending }

/-- `dueCreatorStreamBreakpoints`: of the first `budget + 1` breakpoints those
at or before `upto`, at most `budget` of them. -/
def dueCreatorStreamBreakpoints (s : CreatorStream) (upto : ℤ) (budget : ℕ) :
    List ((ℤ ×ₗ ℕ) × Breakpoint) :=
  ((s.pending.entries.take (budget + 1)).filter (fun e => (ofLex e.1).1 ≤ upto)).take budget

/-- Integrates up to a time ahead of the cursor, as both places of
`SettleCreatorStream` do; another time changes nothing. -/
def integrateCreatorStream (s : CreatorStream) (at_ : ℤ) : Except CoreError CreatorStream :=
  if at_ > s.cursor then do
    let gain ← checkedInt (s.rate * (at_ - s.cursor))
    let acc ← checkedInt (s.acc + gain)
    return { s with acc := acc, cursor := at_ }
  else .ok s

/-- One pass of the loop in `SettleCreatorStream`: integrate up to the
breakpoint if it lies ahead, apply it, delete it. -/
def applyBreakpoint (s : CreatorStream) (e : (ℤ ×ₗ ℕ) × Breakpoint) :
    Except CoreError CreatorStream := do
  let at_ := (ofLex e.1).1
  let s ← integrateCreatorStream s at_
  let acc ← checkedInt (s.acc + e.2.accDelta)
  let rate ← checkedInt (s.rate + e.2.rateDelta)
  failIf (rate < 0) (.streamRateNegative at_)
  return { s with acc := acc, rate := rate, pending := s.pending.erase e.1 }

/-- `SettleCreatorStream`: the new stream and how far it got. -/
def settleCreatorStream (s : CreatorStream) (upto : ℤ) (budget : ℕ) :
    Except CoreError (CreatorStream × ℤ) :=
  if s.cursor = 0 then do
    let s ← anchorCreatorStream s upto
    return (s, upto)
  else do
    failIf (upto < s.cursor) (.streamRegression s.cursor upto)
    if upto = s.cursor then return (s, s.cursor)
    else do
      let due := dueCreatorStreamBreakpoints s upto budget
      let s ← due.foldlM applyBreakpoint s
      -- a used-up budget may leave breakpoints behind, so stop at the last one applied
      let reached := if due ≠ [] ∧ due.length = budget then s.cursor else upto
      let s ← integrateCreatorStream s reached
      let s ← setCreatorStreamCursor s s.cursor
      return (s, s.cursor)

/-- `DrawCreatorStream`: the new stream, the amount drawn and whether the
stream reached the boundary. -/
def drawCreatorStream (s : CreatorStream) (boundary : ℤ) (budget : ℕ) :
    Except CoreError (CreatorStream × ℤ × Bool) := do
  let (s, reached) ← settleCreatorStream s boundary budget
  if reached < boundary then return (s, 0, false)
  else do
    let earned := s.acc.tdiv creatorStreamScale
    let amount ← checkedInt (earned - s.paid)
    failIf (amount < 0) (.streamPaidRegression earned s.paid)
    if amount > 0 then return ({ s with paid := earned }, amount, true)
    else return (s, amount, true)

/-- `CreatorStreamIdleUntil`: `none` while money streams, otherwise the time of
the earliest breakpoint, or zero when there is none. -/
def creatorStreamIdleUntil (s : CreatorStream) : Option ℤ :=
  if s.rate ≠ 0 then none
  else match s.pending.entries with
    | [] => some 0
    | e :: _ => some (ofLex e.1).1

/-! ## 2. Integrating under a budget -/

variable {s s' : CreatorStream} {budget : ℕ} {boundary now floor : ℤ} {w : TrancheWindow}
  {ws : List TrancheWindow} {ds : List StreamDraw}

/-- The stream does not stay within 256 bits: no smaller number bounds its rates
and values. -/
def CreatorStream.Overlarge (s : CreatorStream) : Prop :=
  ∀ bound, Bounded bound s.toAccumulator → 2 ^ 256 ≤ bound

theorem CreatorStream.Overlarge.of_advances (hadv : Advances s.toAccumulator s'.toAccumulator)
    (h : s'.Overlarge) : s.Overlarge :=
  fun bound hb => h bound (hadv.bounded bound hb)

namespace CreatorStreamLemmas

theorem filter_eq_takeWhile {α : Type*} {p : α → Bool} {l : List α}
    (h : l.Pairwise (fun a b => p b = true → p a = true)) : l.filter p = l.takeWhile p := by
  induction l with
  | nil => rfl
  | cons a l ih =>
    obtain ⟨hhead, htail⟩ := pairwise_cons.mp h
    by_cases ha : p a = true
    · rw [filter_cons_of_pos ha, takeWhile_cons_of_pos ha, ih htail]
    · rw [filter_cons_of_neg ha, takeWhile_cons_of_neg ha, filter_eq_nil_iff]
      intro b hb hpb
      exact ha (hhead b hb hpb)

theorem pending_times (s : CreatorStream) (upto : ℤ) :
    s.pending.entries.Pairwise (fun a b =>
      decide ((ofLex b.1).1 ≤ upto) = true → decide ((ofLex a.1).1 ≤ upto) = true) :=
  s.pending.sorted.imp fun hlt hb => by
    simpa using (time_le_of_le hlt.le).trans (by simpa using hb)

/-- The due breakpoints are the first ones, as far as the budget goes. -/
theorem due_eq (s : CreatorStream) (upto : ℤ) (budget : ℕ) :
    dueCreatorStreamBreakpoints s upto budget =
      (s.pending.entries.takeWhile (fun e => (ofLex e.1).1 ≤ upto)).take budget := by
  rw [dueCreatorStreamBreakpoints,
    filter_eq_takeWhile ((pending_times s upto).sublist (take_sublist _ _)),
    ← take_takeWhile, take_take, min_eq_left (Nat.le_succ budget)]

/-- The pending breakpoints, split into the due ones and the rest. When the
budget is not used up, the rest lies after `upto`. -/
theorem due_split (s : CreatorStream) (upto : ℤ) (budget : ℕ) :
    ∃ rest, s.pending.entries = dueCreatorStreamBreakpoints s upto budget ++ rest ∧
      (∀ e ∈ dueCreatorStreamBreakpoints s upto budget, (ofLex e.1).1 ≤ upto) ∧
      (dueCreatorStreamBreakpoints s upto budget).length ≤ budget ∧
      ((dueCreatorStreamBreakpoints s upto budget).length < budget →
        ∀ e ∈ rest, upto < (ofLex e.1).1) := by
  rw [due_eq]
  generalize hp : (fun e : (ℤ ×ₗ ℕ) × Breakpoint => decide ((ofLex e.1).1 ≤ upto)) = p
  refine ⟨(s.pending.entries.takeWhile p).drop budget ++ s.pending.entries.dropWhile p,
    ?_, ?_, length_take_le _ _, ?_⟩
  · rw [← append_assoc, take_append_drop, takeWhile_append_dropWhile]
  · intro e he
    have := mem_takeWhile_imp (mem_of_mem_take he)
    rw [← hp] at this
    simpa using this
  · intro hlt e he
    have hlen : (s.pending.entries.takeWhile p).length ≤ budget := by
      rw [length_take] at hlt
      omega
    rw [drop_eq_nil_of_le hlen, nil_append] at he
    -- the records behind the first one that is too late are too late as well
    have hall : ∀ e ∈ s.pending.entries.dropWhile p, ¬ p e = true := by
      have htail := (pending_times s upto).sublist (dropWhile_sublist (l := s.pending.entries) p)
      cases hd : s.pending.entries.dropWhile p with
      | nil => simp
      | cons a l =>
        have ha : ¬ p a = true := by
          have := head_dropWhile_not p (l := s.pending.entries) (by rw [hd]; simp)
          simp only [hd, head_cons] at this
          simp [this]
        rw [hd] at htail
        intro b hb hpb
        rcases mem_cons.mp hb with rfl | hb
        · exact ha hpb
        · subst hp
          exact ha (rel_of_pairwise_cons htail hb hpb)
    have := hall e he
    rw [← hp] at this
    simpa using this

/-- Integrating a stream whose rate and amount are not negative. -/
theorem integrateCreatorStream_ensures (hrate : 0 ≤ s.rate) (hacc : 0 ≤ s.acc) {at_ : ℤ}
    {large : Prop} (hlarge : 2 ^ 256 ≤ (s.toAccumulator.runTo at_).acc → large) :
    Ensures (integrateCreatorStream s at_)
      (· = { toAccumulator := s.toAccumulator.runTo at_, paid := s.paid }) fun _ => large := by
  unfold integrateCreatorStream
  split
  next hlt =>
    have hgain : 0 ≤ s.rate * (at_ - s.cursor) := mul_nonneg hrate (sub_nonneg.mpr hlt.le)
    simp only [runTo, max_eq_left hlt.le] at hlarge ⊢
    refine ensures_checkedInt_bind hgain (fun h => hlarge (by linarith)) ?_
    exact ensures_checkedInt_bind (add_nonneg hacc hgain) hlarge rfl
  next hle =>
    simp only [runTo, max_eq_right (not_lt.mp hle), sub_self, mul_zero, add_zero]
    rfl

/-- Applying the first breakpoint of a sound stream absorbs it. -/
theorem applyBreakpoint_head (hs : Sound s.toAccumulator) (hacc : 0 ≤ s.acc)
    {e : (ℤ ×ₗ ℕ) × Breakpoint} {es : List ((ℤ ×ₗ ℕ) × Breakpoint)}
    (h : s.pending.entries = e :: es) :
    Ensures (applyBreakpoint s e)
      (· = { toAccumulator := s.toAccumulator.absorb e.1 e.2, paid := s.paid })
      fun _ => s.Overlarge := by
  have hadv := hs.advances_absorb h
  have hlump := hs.acc_le_absorb h
  have hacc' : 0 ≤ (s.toAccumulator.absorb e.1 e.2).acc := hacc.trans hadv.acc_le
  have hrate' : 0 ≤ (s.toAccumulator.absorb e.1 e.2).rate := hadv.sound.rate_nonneg
  -- every number on the way is at most the amount or the rate afterwards
  have hlarge : 2 ^ 256 ≤ (s.toAccumulator.absorb e.1 e.2).acc → s.Overlarge :=
    fun hle bound hb => hle.trans ((hadv.bounded bound hb).acc_le hadv.sound)
  refine (integrateCreatorStream_ensures hs.rate_nonneg hacc fun hle =>
    hlarge (hle.trans hlump)).bind ?_
  rintro _ rfl
  refine ensures_checkedInt_bind hacc' hlarge (ensures_checkedInt_bind hrate'
    (fun hle bound hb => hle.trans (hadv.bounded bound hb).rate_le) ?_)
  exact .failIf_bind (fun hneg => absurd hneg (not_lt.mpr hrate')) fun _ => rfl

/-- The loop over the due breakpoints. -/
theorem applyBreakpoints (hs : Sound s.toAccumulator) (hacc : 0 ≤ s.acc) {upto : ℤ}
    {due rest : List ((ℤ ×ₗ ℕ) × Breakpoint)} (hsplit : s.pending.entries = due ++ rest)
    (hdue : ∀ e ∈ due, (ofLex e.1).1 ≤ upto) (hc : s.cursor ≤ upto) :
    Ensures (due.foldlM applyBreakpoint s) (fun s' =>
      Advances s.toAccumulator s'.toAccumulator ∧ s'.pending.entries = rest ∧
        s'.cursor ≤ upto ∧ s'.paid = s.paid) fun _ => s.Overlarge := by
  induction due generalizing s with
  | nil => exact ⟨.refl hs, hsplit, hc, rfl⟩
  | cons e due ih =>
    have hhead : s.pending.entries = e :: (due ++ rest) := hsplit
    have hadv := hs.advances_absorb hhead
    rw [foldlM_cons]
    refine (applyBreakpoint_head hs hacc hhead).bind ?_
    rintro s₁ rfl
    have hloop := ih (s := { toAccumulator := s.toAccumulator.absorb e.1 e.2, paid := s.paid })
      hadv.sound (hacc.trans hadv.acc_le) (entries_erase_head hhead)
      (fun x hx => hdue x (mem_cons_of_mem e hx))
      (max_le (hdue e mem_cons_self) hc)
    exact hloop.imp (fun s' h => ⟨hadv.trans h.1, h.2⟩) fun _ => .of_advances hadv

end CreatorStreamLemmas

open CreatorStreamLemmas

/-- Settling a sound stream forward fails only if it outgrows 256 bits. It
advances the stream up to `upto` at most, and leaves no due breakpoint unless
the budget is used up. -/
theorem settle_advances (hs : Sound s.toAccumulator) (hacc : 0 ≤ s.acc) (hpos : 0 < s.cursor)
    {upto : ℤ} (hle : s.cursor ≤ upto) (hbudget : 0 < budget) :
    Ensures (settleCreatorStream s upto budget) (fun r =>
      r.2 = r.1.cursor ∧ Advances s.toAccumulator r.1.toAccumulator ∧ r.1.cursor ≤ upto ∧
        r.1.paid = s.paid ∧
        (s.cursor < upto → (dueCreatorStreamBreakpoints s upto budget).length < budget →
          r.1.cursor = upto ∧ ∀ k b, r.1.pending.get k = some b → upto < (ofLex k).1))
      fun _ => s.Overlarge := by
  unfold settleCreatorStream
  rw [if_neg hpos.ne', failIf_of_not _ (not_lt.mpr hle), ok_bind]
  by_cases heq : upto = s.cursor
  · rw [if_pos heq]
    exact ⟨rfl, .refl hs, hle, rfl, fun hlt => absurd heq hlt.ne'⟩
  rw [if_neg heq]
  obtain ⟨rest, hsplit, hdue, hlen, hrest⟩ := due_split s upto budget
  refine (applyBreakpoints hs hacc hsplit hdue hle).bind ?_
  rintro s₁ ⟨hadv, hpend, hcur, hpaid⟩
  have hpos₁ : 0 < s₁.cursor := hpos.trans_le hadv.cursor_le
  have hacc₁ : 0 ≤ s₁.acc := hacc.trans hadv.acc_le
  by_cases hfull : dueCreatorStreamBreakpoints s upto budget ≠ [] ∧
      (dueCreatorStreamBreakpoints s upto budget).length = budget
  · -- the budget is used up: the stream stays at the last breakpoint applied
    have hstay : integrateCreatorStream s₁ s₁.cursor = .ok s₁ := if_neg (lt_irrefl _)
    simp only [if_pos hfull, hstay, setCreatorStreamCursor,
      failIf_of_not _ (not_lt.mpr hpos₁.le), ok_bind]
    exact ⟨rfl, hadv, hcur, hpaid, fun _ hlt => absurd hfull.2 hlt.ne⟩
  · have hlt : (dueCreatorStreamBreakpoints s upto budget).length < budget := by
      refine lt_of_le_of_ne hlen fun hEq => hfull ⟨fun hnil => ?_, hEq⟩
      rw [hnil] at hEq
      exact hbudget.ne hEq
    have hgap : ∀ k b, s₁.pending.get k = some b → upto < (ofLex k).1 := by
      intro k b hg
      refine hrest hlt (k, b) ?_
      rw [← hpend]
      exact mem_entries_iff.mpr hg
    have hadv' := hadv.trans (hadv.sound.advances_runTo hgap)
    have hcur' : (s₁.toAccumulator.runTo upto).cursor = upto := max_eq_left hcur
    simp only [if_neg hfull]
    refine (integrateCreatorStream_ensures hadv.sound.rate_nonneg hacc₁ fun hle bound hb =>
      hle.trans ((hadv'.bounded bound hb).acc_le hadv'.sound)).bind ?_
    rintro _ rfl
    simp only [setCreatorStreamCursor,
      failIf_of_not _ (not_lt.mpr (hpos₁.le.trans (hcur.trans hcur'.ge))), ok_bind]
    exact ⟨rfl, hadv', hcur'.le, hpaid, fun _ _ => ⟨hcur', hgap⟩⟩

/-! ## 3. Drawing -/

theorem creatorStreamScale_pos : 0 < creatorStreamScale := by decide

/-- What every stored stream satisfies: a sound accumulator that has never paid
more than it collected. A stream that never ran has collected nothing. -/
structure CreatorStream.WellFormed (s : CreatorStream) : Prop where
  sound : Sound s.toAccumulator
  cursor_nonneg : 0 ≤ s.cursor
  paid_nonneg : 0 ≤ s.paid
  backed : s.paid * creatorStreamScale ≤ s.acc
  idle : s.cursor = 0 → s.rate = 0 ∧ s.acc = 0 ∧ s.paid = 0

theorem CreatorStream.WellFormed.acc_nonneg (h : s.WellFormed) : 0 ≤ s.acc :=
  (mul_nonneg h.paid_nonneg creatorStreamScale_pos.le).trans h.backed

theorem CreatorStream.wellFormed_empty : CreatorStream.empty.WellFormed where
  sound := ⟨le_rfl, fun _ => le_rfl, fun k b h => by cases h⟩
  cursor_nonneg := le_rfl
  paid_nonneg := le_rfl
  backed := le_rfl
  idle := fun _ => ⟨rfl, rfl, rfl⟩

/-- The outcome of one draw. -/
structure Drawn (s : CreatorStream) (boundary : ℤ) (s' : CreatorStream) (amount : ℤ)
    (complete : Bool) : Prop where
  wellFormed : s'.WellFormed
  cursor_le : s'.cursor ≤ boundary
  amount_nonneg : 0 ≤ amount
  paid_eq : s'.paid = s.paid + amount
  complete_iff : complete = true ↔ s'.cursor = boundary
  whole : complete = true → s'.paid = s'.acc / creatorStreamScale
  partial_zero : complete = false → amount = 0
  pending_sub : ∀ k b, s'.pending.get k = some b → s.pending.get k = some b

/-- Drawing from a running stream. -/
theorem draw_running (hs : s.WellFormed) (hpos : 0 < s.cursor)
    (hle : s.cursor ≤ boundary) (hbudget : 0 < budget) :
    Ensures (drawCreatorStream s boundary budget) (fun r =>
      Drawn s boundary r.1 r.2.1 r.2.2 ∧ Advances s.toAccumulator r.1.toAccumulator)
      fun _ => s.Overlarge := by
  refine (settle_advances hs.sound hs.acc_nonneg hpos hle hbudget).bind ?_
  rintro ⟨s₁, reached⟩ ⟨heq, hadv, hcur, hpaid, -⟩
  obtain rfl : reached = s₁.cursor := heq
  have hpos₁ : 0 < s₁.cursor := hpos.trans_le hadv.cursor_le
  have hbacked : s₁.paid * creatorStreamScale ≤ s₁.acc := hpaid ▸ hs.backed.trans hadv.acc_le
  have hpaid₁ : 0 ≤ s₁.paid := hpaid ▸ hs.paid_nonneg
  have hwf : s₁.WellFormed :=
    ⟨hadv.sound, hpos₁.le, hpaid₁, hbacked, fun h => absurd h hpos₁.ne'⟩
  by_cases hshort : s₁.cursor < boundary
  · simp only [if_pos hshort]
    exact ⟨⟨hwf, hcur, le_rfl, by rw [hpaid, add_zero], by simpa using hshort.ne, by simp,
      fun _ => rfl, hadv.pending_sub⟩, hadv⟩
  · have hcomplete : s₁.cursor = boundary := le_antisymm hcur (not_lt.mp hshort)
    have hearned : s₁.paid ≤ s₁.acc / creatorStreamScale :=
      (Int.le_ediv_iff_mul_le creatorStreamScale_pos).mpr hbacked
    have hnn := sub_nonneg.mpr hearned
    simp only [if_neg hshort, Int.tdiv_eq_ediv_of_nonneg hwf.acc_nonneg]
    -- a draw is at most what the stream has collected
    refine ensures_checkedInt_bind hnn (fun hlarge bound hb => ?_) ?_
    · have hdiv := Int.ediv_le_self creatorStreamScale hwf.acc_nonneg
      have hbound := (hadv.bounded bound hb).acc_le hadv.sound
      linarith
    rw [failIf_of_not _ (not_lt.mpr hnn), ok_bind]
    by_cases hgain : s₁.acc / creatorStreamScale - s₁.paid > 0
    · rw [if_pos hgain]
      refine ⟨⟨⟨hadv.sound, hpos₁.le, hpaid₁.trans hearned,
        Int.ediv_mul_le _ creatorStreamScale_pos.ne', fun h => absurd h hpos₁.ne'⟩, hcur,
        hgain.le, ?_, by simpa using hcomplete, fun _ => rfl, by simp, hadv.pending_sub⟩, hadv⟩
      show s₁.acc / creatorStreamScale = s.paid + (s₁.acc / creatorStreamScale - s₁.paid)
      rw [hpaid]
      ring
    · have hzero : s₁.acc / creatorStreamScale - s₁.paid = 0 := le_antisymm (not_lt.mp hgain) hnn
      rw [if_neg hgain, hzero]
      exact ⟨⟨hwf, hcur, le_rfl, by rw [hpaid, add_zero],
        by simpa using hcomplete, fun _ => (sub_eq_zero.mp hzero).symm, by simp,
        hadv.pending_sub⟩, hadv⟩

/-- Anchoring a stream that never ran only moves its cursor. -/
theorem CreatorStream.WellFormed.anchor (hs : s.WellFormed) (hzero : s.cursor = 0) {at_ : ℤ}
    (hle : 0 ≤ at_) : anchorCreatorStream s at_ = .ok { s with cursor := at_ } := by
  obtain ⟨hrate, hacc, hpaid⟩ := hs.idle hzero
  simp only [anchorCreatorStream, setCreatorStreamCursor, failIf_of_not _ (not_lt.mpr hle), ok_bind,
    hrate, hacc, hpaid]
  rfl

theorem CreatorStream.WellFormed.moveCursor (hs : s.WellFormed) (hzero : s.cursor = 0) {at_ : ℤ}
    (hle : 0 ≤ at_) : ({ s with cursor := at_ } : CreatorStream).WellFormed :=
  ⟨⟨hs.sound.rate_nonneg, hs.sound.through_nonneg, hs.sound.lump_nonneg⟩, hle, hs.paid_nonneg,
    hs.backed, fun _ => hs.idle hzero⟩

/-- The first draw from a stream that never ran anchors it at the boundary and
returns nothing. -/
theorem draw_unanchored (hs : s.WellFormed) (hzero : s.cursor = 0) (hle : 0 ≤ boundary)
    (budget : ℕ) :
    drawCreatorStream s boundary budget = .ok ({ s with cursor := boundary }, 0, true) := by
  obtain ⟨-, hacc, hpaid⟩ := hs.idle hzero
  have hnothing : checkedInt 0 = .ok 0 := rfl
  simp only [drawCreatorStream, settleCreatorStream, if_pos hzero, hs.anchor hzero hle, ok_bind,
    pure, Except.pure, lt_irrefl, if_false, hacc, hpaid, Int.zero_tdiv, sub_self, hnothing,
    failIf_of_not, gt_iff_lt, not_false_eq_true]

theorem drawn_unanchored (hs : s.WellFormed) (hzero : s.cursor = 0) (hle : 0 ≤ boundary) :
    Drawn s boundary { s with cursor := boundary } 0 true := by
  obtain ⟨-, hacc, hpaid⟩ := hs.idle hzero
  refine ⟨hs.moveCursor hzero hle, le_rfl, le_rfl, (add_zero _).symm, by simp, fun _ => ?_,
    by simp, fun _ _ h => h⟩
  show s.paid = s.acc / creatorStreamScale
  rw [hpaid, hacc, Int.zero_ediv]

/-- A draw at a boundary not before the cursor fails only on a stream that outgrows
256 bits. -/
theorem draw_ok (hs : s.WellFormed) (hle : s.cursor ≤ boundary) (hbudget : 0 < budget) :
    Ensures (drawCreatorStream s boundary budget) (fun r => Drawn s boundary r.1 r.2.1 r.2.2)
      fun _ => s.Overlarge := by
  rcases hs.cursor_nonneg.eq_or_lt with hzero | hpos
  · rw [draw_unanchored hs hzero.symm (hzero.le.trans hle) budget]
    exact drawn_unanchored hs hzero.symm (hzero.le.trans hle)
  · exact (draw_running hs hpos hle hbudget).imp (fun _ => And.left) fun _ => id

/-! ## 4. Booking a tranche -/

/-- A tranche as it is booked. -/
structure TrancheWindow where
  id : ℕ
  creatorAmt : ℤ
  start : ℤ
  stop : ℤ
deriving DecidableEq, Repr

/-- What a tranche has earned by time `t`, in scaled units. -/
def TrancheWindow.earned (w : TrancheWindow) (t : ℤ) : ℤ :=
  windowEarned w.start w.stop (trancheRate w.creatorAmt w.start w.stop)
    (trancheDeficit w.creatorAmt w.start w.stop) t

/-- What a set of tranches has earned by time `t`, in scaled units. -/
def earnedTotal (ws : List TrancheWindow) (t : ℤ) : ℤ :=
  (ws.map (fun w => w.earned t)).sum

namespace CreatorStreamLemmas

theorem breakpointSeq_eq {id : ℕ} (h : id < 2 ^ 63) (edge : StreamEdge) :
    breakpointSeq id edge = 2 * id + edge.byte := by
  have hmod : id <<< 1 % 2 ^ 64 = id <<< 1 := by
    rw [Nat.shiftLeft_eq]
    omega
  have hbyte : edge.byte < 2 ^ 1 := by cases edge <;> decide
  rw [breakpointSeq, hmod, ← Nat.shiftLeft_add_eq_or_of_lt hbyte, Nat.shiftLeft_eq]
  omega

theorem breakpointSeq_inj {id id' : ℕ} (h : id < 2 ^ 63) (h' : id' < 2 ^ 63)
    {edge edge' : StreamEdge} (heq : breakpointSeq id edge = breakpointSeq id' edge') :
    id = id' := by
  rw [breakpointSeq_eq h, breakpointSeq_eq h'] at heq
  cases edge <;> cases edge' <;> simp only [StreamEdge.byte] at heq <;> omega

theorem trancheRate_nonneg {amt start stop : ℤ} (hamt : 0 ≤ amt) (hwin : start < stop) :
    0 ≤ trancheRate amt start stop :=
  Int.tdiv_nonneg (mul_nonneg hamt creatorStreamScale_pos.le) (sub_nonneg.mpr hwin.le)

theorem trancheDeficit_nonneg {amt start stop : ℤ} (hamt : 0 ≤ amt) (hwin : start < stop) :
    0 ≤ trancheDeficit amt start stop := by
  have hnum : 0 ≤ amt * creatorStreamScale := mul_nonneg hamt creatorStreamScale_pos.le
  have := Int.ediv_mul_le (amt * creatorStreamScale) (sub_pos.mpr hwin).ne'
  rw [trancheDeficit, trancheRate, Int.tdiv_eq_ediv_of_nonneg hnum]
  linarith

/-- From its end on, a tranche has earned exactly its amount. -/
theorem earned_after (hwin : w.start < w.stop) {t : ℤ} (ht : w.stop ≤ t) :
    w.earned t = w.creatorAmt * creatorStreamScale := by
  rw [TrancheWindow.earned, windowEarned, if_pos (hwin.le.trans ht), if_pos ht, min_eq_right ht,
    trancheDeficit]
  ring

theorem earned_of_zero (h : w.creatorAmt = 0) (t : ℤ) : w.earned t = 0 := by
  simp [TrancheWindow.earned, windowEarned, trancheDeficit, trancheRate, h]

theorem earnedTotal_after {t : ℤ} (h : ∀ w ∈ ws, w.start < w.stop ∧ w.stop ≤ t) :
    earnedTotal ws t = (ws.map TrancheWindow.creatorAmt).sum * creatorStreamScale := by
  rw [earnedTotal, map_congr_left fun w hw => earned_after (h w hw).1 (h w hw).2,
    sum_map_mul_right]

end CreatorStreamLemmas

open CreatorStreamLemmas

/-- The stream a booking writes to: one that never ran is anchored first. -/
def anchoredAt (now : ℤ) (s : CreatorStream) : CreatorStream :=
  if s.cursor = 0 then { s with cursor := now } else s

@[simp] theorem anchoredAt_pending (now : ℤ) (s : CreatorStream) :
    (anchoredAt now s).pending = s.pending := by
  unfold anchoredAt
  split <;> rfl

@[simp] theorem anchoredAt_paid (now : ℤ) (s : CreatorStream) :
    (anchoredAt now s).paid = s.paid := by
  unfold anchoredAt
  split <;> rfl

theorem anchoredAt_wellFormed (hs : s.WellFormed)
    (hnow : s.cursor = 0 → 0 ≤ now) : (anchoredAt now s).WellFormed := by
  unfold anchoredAt
  split
  · next hzero => exact hs.moveCursor hzero (hnow hzero)
  · exact hs

theorem anchorIfUnused_eq (hs : s.WellFormed)
    (hnow : s.cursor = 0 → 0 ≤ now) : anchorIfUnused s now = .ok (anchoredAt now s) := by
  unfold anchorIfUnused anchoredAt
  split
  · next hzero => exact hs.anchor hzero (hnow hzero)
  · rfl

/-- Booking succeeds for every amount and window that pass the two checks, unless
the scaled amount outgrows 256 bits, and books the tranche's rate and deficit. -/
theorem schedule_eq (hs : s.WellFormed) (hnow : s.cursor = 0 → 0 ≤ now) (w : TrancheWindow)
    (hamt : 0 < w.creatorAmt) (hwin : w.start < w.stop)
    (hfit : w.creatorAmt * creatorStreamScale < 2 ^ 256) :
    scheduleCreatorStreamTranche now s w.id w.creatorAmt w.start w.stop =
      .ok { toAccumulator := (anchoredAt now s).toAccumulator.book w.start w.stop
              (breakpointSeq w.id .start) (breakpointSeq w.id .finish)
              (trancheRate w.creatorAmt w.start w.stop)
              (trancheDeficit w.creatorAmt w.start w.stop),
            paid := s.paid } := by
  have hscaled : 0 ≤ w.creatorAmt * creatorStreamScale :=
    mul_nonneg hamt.le creatorStreamScale_pos.le
  have hdef := trancheDeficit_nonneg hamt.le hwin
  have hflat : 0 ≤ trancheRate w.creatorAmt w.start w.stop * (w.stop - w.start) :=
    mul_nonneg (trancheRate_nonneg hamt.le hwin) (sub_nonneg.mpr hwin.le)
  have hrate : (w.creatorAmt * creatorStreamScale).tdiv (w.stop - w.start) =
      trancheRate w.creatorAmt w.start w.stop := rfl
  have hrest : w.creatorAmt * creatorStreamScale -
      trancheRate w.creatorAmt w.start w.stop * (w.stop - w.start) =
      trancheDeficit w.creatorAmt w.start w.stop := rfl
  have hchecked : ∀ x : ℤ, 0 ≤ x → x ≤ w.creatorAmt * creatorStreamScale →
      checkedInt x = .ok x := by
    intro x hx hle
    exact checkedInt_eq_ok.mpr ⟨by omega, rfl⟩
  unfold scheduleCreatorStreamTranche
  simp only [failIf_of_not _ (not_lt.mpr hamt.le), failIf_of_not _ (not_le.mpr hwin), ok_bind,
    if_neg hamt.ne', anchorIfUnused_eq hs hnow, hchecked _ hscaled le_rfl, hrate,
    hchecked _ hflat (by linarith), hrest, hchecked _ hdef (by linarith),
    failIf_of_not _ (not_lt.mpr hdef), book, anchoredAt_paid]
  rfl

theorem schedule_zero (now : ℤ) (w : TrancheWindow) (hamt : w.creatorAmt = 0)
    (hwin : w.start < w.stop) :
    scheduleCreatorStreamTranche now s w.id w.creatorAmt w.start w.stop = .ok s := by
  unfold scheduleCreatorStreamTranche
  rw [failIf_of_not _ (not_lt.mpr hamt.ge), ok_bind, failIf_of_not _ (not_le.mpr hwin), ok_bind,
    if_pos hamt]

/-- What a booking did that succeeded. -/
theorem schedule_eq_ok {id : ℕ} {amount start stop : ℤ}
    (h : scheduleCreatorStreamTranche now s id amount start stop = .ok s') :
    start < stop ∧ (amount = 0 ∧ s' = s ∨ amount ≠ 0 ∧ ∃ s₁, anchorIfUnused s now = .ok s₁ ∧
      (amount * creatorStreamScale).natAbs < 2 ^ 256 ∧
      s' = { s₁ with
        pending := (s₁.pending.set (toLex (start, breakpointSeq id .start))
          ⟨trancheRate amount start stop, 0⟩).set (toLex (stop, breakpointSeq id .finish))
          ⟨-trancheRate amount start stop, trancheDeficit amount start stop⟩ }) := by
  simp only [scheduleCreatorStreamTranche, bind_eq_ok, failIf_eq_ok, exists_const] at h
  obtain ⟨-, hwindow, h⟩ := h
  refine ⟨not_le.mp hwindow, ?_⟩
  split at h
  next hzero => exact .inl ⟨hzero, (Except.ok.inj h).symm⟩
  next hamt =>
    simp only [bind_eq_ok, checkedInt_eq_ok, failIf_eq_ok, exists_const, pure_eq_ok] at h
    obtain ⟨s₁, hanchor, _, ⟨hfit, rfl⟩, _, ⟨-, rfl⟩, _, ⟨-, rfl⟩, -, rfl⟩ := h
    exact .inr ⟨hamt, s₁, hanchor, hfit, rfl⟩

/-- A booking that anchors the stream happened at a non-negative block time, and
the scaled amount fits. -/
theorem schedule_checks (hamt : 0 < w.creatorAmt)
    (h : scheduleCreatorStreamTranche now s w.id w.creatorAmt w.start w.stop = .ok s') :
    (s.cursor = 0 → 0 ≤ now) ∧ w.creatorAmt * creatorStreamScale < 2 ^ 256 := by
  obtain ⟨-, ⟨hzero, -⟩ | ⟨-, s₁, hanchor, hfit, -⟩⟩ := schedule_eq_ok h
  · exact absurd hzero hamt.ne'
  refine ⟨fun hcursor => ?_, by omega⟩
  simp only [anchorIfUnused, if_pos hcursor, anchorCreatorStream, setCreatorStreamCursor,
    bind_eq_ok, failIf_eq_ok] at hanchor
  obtain ⟨_, ⟨_, hnow, -⟩, -⟩ := hanchor
  exact not_lt.mp hnow

/-- A booking on a well-formed stream leaves a well-formed stream. -/
theorem booked_wellFormed (hs : s.WellFormed) (hamt : 0 ≤ w.creatorAmt) (hwin : w.start < w.stop)
    (hfresh : ∀ (t : ℤ) (edge : StreamEdge),
      s.pending.get (toLex (t, breakpointSeq w.id edge)) = none)
    (h : scheduleCreatorStreamTranche now s w.id w.creatorAmt w.start w.stop = .ok s') :
    s'.WellFormed := by
  rcases hamt.eq_or_lt with hzero | hpos
  · rw [schedule_zero now w hzero.symm hwin] at h
    cases h
    exact hs
  · obtain ⟨hnow, hfit⟩ := schedule_checks hpos h
    rw [schedule_eq hs hnow w hpos hwin hfit] at h
    cases h
    have hanch := anchoredAt_wellFormed hs hnow
    have hbacked := hanch.backed
    have hidle := hanch.idle
    rw [anchoredAt_paid] at hbacked hidle
    exact ⟨hanch.sound.book hwin (trancheRate_nonneg hamt hwin) (trancheDeficit_nonneg hamt hwin)
      (by rw [anchoredAt_pending]; exact hfresh _ _) (by rw [anchoredAt_pending]; exact hfresh _ _),
      hanch.cursor_nonneg, hs.paid_nonneg, hbacked, hidle⟩

/-! ## 5. Runs -/

/-- One call of `DrawCreatorStream`, as the caller sees it. -/
structure StreamDraw where
  boundary : ℤ
  amount : ℤ
  complete : Bool
deriving DecidableEq, Repr

/-- `StreamRun ws ds floor s`: booking the tranches `ws` and drawing `ds`, in
any interleaving (most recent first), leads from an unused stream to `s`.
`floor` is the latest of the anchoring instant and the boundaries drawn at; the
next boundary may not lie before it.

A tranche starts no earlier than the cursor that its own booking leaves behind.
The cursor is positive: zero is the store's mark of a stream that never ran. -/
inductive StreamRun : List TrancheWindow → List StreamDraw → ℤ → CreatorStream → Prop
  | unused : StreamRun [] [] 0 .empty
  | anchored {t₀ : ℤ} {s : CreatorStream} :
      0 < t₀ → anchorCreatorStream .empty t₀ = .ok s → StreamRun [] [] t₀ s
  | book {ws : List TrancheWindow} {ds : List StreamDraw} {floor : ℤ} {s s' : CreatorStream}
      (w : TrancheWindow) (now : ℤ) :
      StreamRun ws ds floor s → 0 ≤ w.creatorAmt → w.start < w.stop →
      w.id < 2 ^ 63 → w.id ∉ ws.map TrancheWindow.id →
      scheduleCreatorStreamTranche now s w.id w.creatorAmt w.start w.stop = .ok s' →
      s'.cursor ≤ w.start → (w.creatorAmt ≠ 0 → 0 < s'.cursor) →
      StreamRun (w :: ws) ds (max floor s'.cursor) s'
  | draw {ws : List TrancheWindow} {ds : List StreamDraw} {floor boundary amount : ℤ}
      {complete : Bool} {s s' : CreatorStream} (budget : ℕ) :
      StreamRun ws ds floor s → floor ≤ boundary → 0 < budget →
      drawCreatorStream s boundary budget = .ok (s', amount, complete) →
      StreamRun ws (⟨boundary, amount, complete⟩ :: ds) boundary s'

/-- What a run keeps. -/
structure StreamRun.Inv (ws : List TrancheWindow) (ds : List StreamDraw) (floor : ℤ)
    (s : CreatorStream) : Prop where
  wellFormed : s.WellFormed
  unused : s.cursor = 0 → ∀ k, s.pending.get k = none
  cursor_le : s.cursor ≤ floor
  windows : ∀ w ∈ ws, w.start < w.stop ∧ w.id < 2 ^ 63
  keys : ∀ k b, s.pending.get k = some b →
    ∃ w ∈ ws, ∃ edge, (ofLex k).2 = breakpointSeq w.id edge
  earned : ∀ t, s.cursor ≤ t → s.earnedBy t = earnedTotal ws t
  bounded : Bounded ((ws.map TrancheWindow.creatorAmt).sum * creatorStreamScale) s.toAccumulator
  amounts : ∀ d ∈ ds, 0 ≤ d.amount
  total : (ds.map StreamDraw.amount).sum = s.paid

namespace CreatorStreamLemmas

theorem earnedBy_of_no_pending (hs : s.WellFormed) (hzero : s.cursor = 0)
    (hpend : ∀ k, s.pending.get k = none) (c t : ℤ) :
    ({ s with cursor := c } : CreatorStream).earnedBy t = 0 := by
  obtain ⟨hrate, hacc, -⟩ := hs.idle hzero
  have hno : ∀ k b, ({ s with cursor := c } : CreatorStream).pending.get k = some b →
      t < (ofLex k).1 := fun k b hg => absurd ((hpend k).symm.trans hg) (by simp)
  rw [earnedBy_before hno]
  simp [hrate, hacc]

/-- A stream that has earned nothing and has nothing pending stays within every bound. -/
theorem bounded_of_no_pending (hs : s.WellFormed) (hzero : s.cursor = 0)
    (hpend : ∀ k, s.pending.get k = none) (c : ℤ) {bound : ℤ} (hbound : 0 ≤ bound) :
    Bounded bound ({ s with cursor := c } : CreatorStream).toAccumulator where
  rate_le := (hs.idle hzero).1.trans_le hbound
  through_le := fun k => by
    have hsum : s.pending.sum (fun k' b => if k' ≤ k then b.rateDelta else 0) = 0 :=
      sum_eq_zero fun k' b hg => absurd ((hpend k').symm.trans hg) (by simp)
    simp only [rateThrough, hsum, (hs.idle hzero).1]
    exact hbound
  earned_le := fun t _ => (earnedBy_of_no_pending hs hzero hpend c t).trans_le hbound

theorem inv_unused : StreamRun.Inv [] [] 0 .empty where
  wellFormed := CreatorStream.wellFormed_empty
  unused := fun _ _ => rfl
  cursor_le := le_rfl
  windows := by simp
  keys := fun k b h => by cases h
  earned := fun t _ => earnedBy_of_no_pending CreatorStream.wellFormed_empty rfl (fun _ => rfl) 0 t
  bounded := bounded_of_no_pending CreatorStream.wellFormed_empty rfl (fun _ => rfl) 0 le_rfl
  amounts := by simp
  total := rfl

theorem inv_anchored {t₀ : ℤ} (hpos : 0 < t₀)
    (h : anchorCreatorStream .empty t₀ = .ok s) : StreamRun.Inv [] [] t₀ s := by
  have hwf := CreatorStream.wellFormed_empty
  rw [hwf.anchor rfl hpos.le] at h
  cases h
  exact ⟨hwf.moveCursor rfl hpos.le, fun _ _ => rfl, le_rfl, by simp, inv_unused.keys,
    fun t _ => earnedBy_of_no_pending hwf rfl (fun _ => rfl) t₀ t,
    bounded_of_no_pending hwf rfl (fun _ => rfl) t₀ le_rfl, by simp, rfl⟩

/-- A new tranche's breakpoints do not overwrite those of another tranche. -/
theorem inv_fresh (h : StreamRun.Inv ws ds floor s) (hid : w.id < 2 ^ 63)
    (hnew : w.id ∉ ws.map TrancheWindow.id) (t : ℤ) (edge : StreamEdge) :
    s.pending.get (toLex (t, breakpointSeq w.id edge)) = none := by
  cases hg : s.pending.get (toLex (t, breakpointSeq w.id edge)) with
  | none => rfl
  | some b =>
    obtain ⟨v, hv, edge', heq⟩ := h.keys _ b hg
    have hsame := breakpointSeq_inj hid (h.windows v hv).2 heq
    exact absurd (mem_map.mpr ⟨v, hv, hsame.symm⟩) hnew

/-- Anchoring changes neither what the tranches have earned nor its bound. -/
theorem inv_anchoredAt (h : StreamRun.Inv ws ds floor s) (now : ℤ) :
    Bounded ((ws.map TrancheWindow.creatorAmt).sum * creatorStreamScale)
      (anchoredAt now s).toAccumulator ∧
    ∀ t, 0 ≤ t → (anchoredAt now s).cursor ≤ t →
      (anchoredAt now s).earnedBy t = earnedTotal ws t := by
  unfold anchoredAt
  split
  next hzero =>
    -- an unused stream has nothing pending, so only empty tranches are booked
    have hnone := earnedBy_of_no_pending h.wellFormed hzero (h.unused hzero)
    refine ⟨bounded_of_no_pending h.wellFormed hzero (h.unused hzero) now
      (h.wellFormed.sound.rate_nonneg.trans h.bounded.rate_le), fun t hpos _ => ?_⟩
    rw [hnone now t, ← h.earned t (hzero.trans_le hpos), ← hnone s.cursor t]
  next => exact ⟨h.bounded, fun t _ => h.earned t⟩

theorem inv_book (h : StreamRun.Inv ws ds floor s) (hamt : 0 ≤ w.creatorAmt)
    (hwin : w.start < w.stop) (hid : w.id < 2 ^ 63) (hnew : w.id ∉ ws.map TrancheWindow.id)
    (hrun : scheduleCreatorStreamTranche now s w.id w.creatorAmt w.start w.stop = .ok s')
    (hstart : s'.cursor ≤ w.start) (hanch : w.creatorAmt ≠ 0 → 0 < s'.cursor) :
    StreamRun.Inv (w :: ws) ds (max floor s'.cursor) s' := by
  have hfresh := inv_fresh h hid hnew
  have hwf := booked_wellFormed h.wellFormed hamt hwin hfresh hrun
  have hwindows : ∀ v ∈ w :: ws, v.start < v.stop ∧ v.id < 2 ^ 63 := by
    intro v hv
    rcases mem_cons.mp hv with rfl | hv
    · exact ⟨hwin, hid⟩
    · exact h.windows v hv
  rcases hamt.eq_or_lt with hzero | hpos
  · -- a tranche without money writes nothing
    rw [schedule_zero now w hzero.symm hwin] at hrun
    cases hrun
    refine ⟨hwf, h.unused, le_max_right _ _, hwindows, ?_, ?_, ?_, h.amounts, h.total⟩
    · intro k b hg
      obtain ⟨v, hv, edge, heq⟩ := h.keys k b hg
      exact ⟨v, mem_cons_of_mem w hv, edge, heq⟩
    · intro t ht
      rw [h.earned t ht, earnedTotal, earnedTotal, map_cons, sum_cons,
        earned_of_zero hzero.symm, zero_add]
    · rw [map_cons, sum_cons, ← hzero, zero_add]
      exact h.bounded
  · obtain ⟨hnow, hfit⟩ := schedule_checks hpos hrun
    rw [schedule_eq h.wellFormed hnow w hpos hwin hfit] at hrun
    cases hrun
    have hcur : 0 < (anchoredAt now s).cursor := hanch hpos.ne'
    have hcur_le : (anchoredAt now s).toAccumulator.cursor ≤ w.start := hstart
    have hfree : ∀ t edge, (anchoredAt now s).pending.get (toLex (t, breakpointSeq w.id edge)) =
        none := by
      rw [anchoredAt_pending]
      exact hfresh
    obtain ⟨hbounded, hearned⟩ := inv_anchoredAt h now
    refine ⟨hwf, fun h0 => absurd h0 hcur.ne', le_max_right _ _, hwindows, ?_, ?_, ?_, h.amounts,
      h.total⟩
    · intro k b hg
      simp only [book, get_set, anchoredAt_pending] at hg
      split at hg
      · next hk => exact ⟨w, mem_cons_self, .finish, by rw [hk]; rfl⟩
      · split at hg
        · next hk => exact ⟨w, mem_cons_self, .start, by rw [hk]; rfl⟩
        · obtain ⟨v, hv, edge, heq⟩ := h.keys k b hg
          exact ⟨v, mem_cons_of_mem w hv, edge, heq⟩
    · intro t ht
      rw [earnedTotal, map_cons, sum_cons, add_comm, ← earnedTotal,
        ← hearned t (hcur.le.trans ht) ht]
      exact earnedBy_book hcur_le hwin (hfree _ _) (hfree _ _)
    · have hsum : ((w :: ws).map TrancheWindow.creatorAmt).sum * creatorStreamScale =
          (ws.map TrancheWindow.creatorAmt).sum * creatorStreamScale +
            (trancheRate w.creatorAmt w.start w.stop * (w.stop - w.start) +
              trancheDeficit w.creatorAmt w.start w.stop) := by
        rw [map_cons, sum_cons, trancheDeficit]
        ring
      rw [hsum]
      exact hbounded.book hcur_le hwin (trancheRate_nonneg hamt hwin)
        (trancheDeficit_nonneg hamt hwin) (hfree _ _) (hfree _ _)

theorem inv_draw {amount : ℤ} {complete : Bool} (h : StreamRun.Inv ws ds floor s)
    (hle : floor ≤ boundary) (hbudget : 0 < budget)
    (hrun : drawCreatorStream s boundary budget = .ok (s', amount, complete)) :
    StreamRun.Inv ws (⟨boundary, amount, complete⟩ :: ds) boundary s' := by
  have hle' := h.cursor_le.trans hle
  have hamounts : 0 ≤ amount → ∀ d ∈ (⟨boundary, amount, complete⟩ : StreamDraw) :: ds,
      0 ≤ d.amount := by
    intro hnn d hd
    rcases mem_cons.mp hd with rfl | hd
    · exact hnn
    · exact h.amounts d hd
  have hkeys : Drawn s boundary s' amount complete → ∀ k b, s'.pending.get k = some b →
      ∃ w ∈ ws, ∃ edge, (ofLex k).2 = breakpointSeq w.id edge :=
    fun hd k b hg => h.keys k b (hd.pending_sub k b hg)
  have htotal : Drawn s boundary s' amount complete →
      (((⟨boundary, amount, complete⟩ : StreamDraw) :: ds).map StreamDraw.amount).sum =
        s'.paid := by
    intro hd
    rw [map_cons, sum_cons, h.total, hd.paid_eq, add_comm]
  rcases h.wellFormed.cursor_nonneg.eq_or_lt with hzero | hpos
  · have hb : 0 ≤ boundary := hzero.le.trans hle'
    rw [draw_unanchored h.wellFormed hzero.symm hb] at hrun
    cases hrun
    have hd := drawn_unanchored h.wellFormed hzero.symm hb
    refine ⟨hd.wellFormed, fun _ => h.unused hzero.symm, le_rfl, h.windows, hkeys hd, ?_,
      bounded_of_no_pending h.wellFormed hzero.symm (h.unused hzero.symm) boundary
        (h.wellFormed.sound.rate_nonneg.trans h.bounded.rate_le), hamounts le_rfl, htotal hd⟩
    intro t ht
    have hnone := earnedBy_of_no_pending h.wellFormed hzero.symm (h.unused hzero.symm)
    rw [hnone boundary t, ← hnone s.cursor t]
    exact h.earned t (hle'.trans ht)
  · obtain ⟨hd, hadv⟩ := (draw_running h.wellFormed hpos hle' hbudget).of_eq_ok hrun
    exact ⟨hd.wellFormed, fun h0 => absurd h0 (hpos.trans_le hadv.cursor_le).ne', hd.cursor_le,
      h.windows, hkeys hd,
      fun t ht => (hadv.earned t ht).trans (h.earned t (hadv.cursor_le.trans ht)),
      hadv.bounded _ h.bounded, hamounts hd.amount_nonneg, htotal hd⟩

end CreatorStreamLemmas

/-- Every run keeps the invariant: one case for each kind of call. -/
theorem StreamRun.inv (h : StreamRun ws ds floor s) : StreamRun.Inv ws ds floor s := by
  induction h with
  | unused => exact inv_unused
  | anchored hpos hanchor => exact inv_anchored hpos hanchor
  | book w now _ hamt hwin hid hnew hrun hstart hanch ih =>
    exact inv_book ih hamt hwin hid hnew hrun hstart hanch
  | draw budget _ hle hbudget hrun ih => exact inv_draw ih hle hbudget hrun

/-- A complete draw that leaves nothing due brings the total to the whole tokens earned. -/
theorem StreamRun.Inv.total_drawn {amount : ℤ} (h : StreamRun.Inv ws ds floor s)
    (hle : floor ≤ boundary) (hbudget : 0 < budget)
    (hrun : drawCreatorStream s boundary budget = .ok (s', amount, true))
    (hdue : ∀ e ∈ s'.pending.entries, boundary < (ofLex e.1).1) :
    (ds.map StreamDraw.amount).sum + amount = earnedTotal ws boundary / creatorStreamScale := by
  have h' := inv_draw h hle hbudget hrun
  have hd := (draw_ok h.wellFormed (h.cursor_le.trans hle) hbudget).of_eq_ok hrun
  have hcur : s'.cursor = boundary := hd.complete_iff.mp rfl
  have hacc := h'.earned s'.cursor le_rfl
  rw [earnedBy_before fun k b hg => hcur.trans_lt (hdue (k, b) (mem_entries_iff.mpr hg)),
    sub_self, mul_zero, add_zero, hcur] at hacc
  have htotal := h'.total
  rw [map_cons, sum_cons, hd.whole rfl, add_comm] at htotal
  rw [htotal, ← hacc]

/-- Exactness of the stream. After any run of bookings and draws whose scaled amounts together
stay within 256 bits, a draw at a boundary not before the earlier ones returns, and no more is
paid than earned. When the draw is complete at or after the end of every tranche and leaves no
breakpoint pending, all amounts drawn together are exactly the amounts booked. -/
theorem streamRun_exact {ws : List TrancheWindow} {ds : List StreamDraw} {floor : ℤ}
    {s : CreatorStream} (h : StreamRun ws ds floor s)
    (hfit : (ws.map TrancheWindow.creatorAmt).sum * creatorStreamScale < 2 ^ 256) {boundary : ℤ}
    (hle : floor ≤ boundary) {budget : ℕ} (hbudget : 0 < budget) :
    ∃ s' amount complete, drawCreatorStream s boundary budget = .ok (s', amount, complete) ∧
      0 ≤ amount ∧ 0 ≤ s'.rate ∧ s'.paid * creatorStreamScale ≤ s'.acc ∧
      (complete = true → (∀ w ∈ ws, w.stop ≤ boundary) → s'.pending.entries = [] →
        (ds.map StreamDraw.amount).sum + amount = (ws.map TrancheWindow.creatorAmt).sum) := by
  have hinv := h.inv
  have hdraw := draw_ok hinv.wellFormed (hinv.cursor_le.trans hle) hbudget
  obtain ⟨⟨s', amount, complete⟩, hrun, hd⟩ :=
    (hdraw.imp (fun _ => id) fun _ hlarge => hfit.not_ge (hlarge _ hinv.bounded)).exists_ok
  refine ⟨s', amount, complete, hrun, hd.amount_nonneg, hd.wellFormed.sound.rate_nonneg,
    hd.wellFormed.backed, ?_⟩
  rintro rfl hends hnone
  rw [hinv.total_drawn hle hbudget hrun (by simp [hnone]),
    earnedTotal_after fun w hw => ⟨(hinv.windows w hw).1, hends w hw⟩,
    Int.mul_ediv_cancel _ creatorStreamScale_pos.ne']

/-- A stream anchored at 10 with one tranche of 100 tokens over `[10, 107)`. -/
def oneTrancheStream : CreatorStream where
  cursor := 10
  rate := 0
  acc := 0
  pending := (OrderedMap.empty.set (toLex (10, 2)) ⟨1030927835051546391, 0⟩).set
    (toLex (107, 3)) ⟨-1030927835051546391, 73⟩
  paid := 0

theorem oneTrancheStream_run : StreamRun [⟨1, 100, 10, 107⟩] [] 10 oneTrancheStream :=
  have hanchored : StreamRun [] [] 10 { CreatorStream.empty with cursor := 10 } :=
    .anchored (by decide) rfl
  .book ⟨1, 100, 10, 107⟩ 10 hanchored (by decide) (by decide) (by decide) (by decide) rfl
    (by decide) (by decide)

theorem streamRun_exact_oneTranche :
    ∃ s' amount complete, drawCreatorStream oneTrancheStream 200 3 = .ok (s', amount, complete) ∧
      0 ≤ amount ∧ 0 ≤ s'.rate ∧ s'.paid * creatorStreamScale ≤ s'.acc ∧
      (complete = true → (∀ w ∈ [(⟨1, 100, 10, 107⟩ : TrancheWindow)], w.stop ≤ 200) →
        s'.pending.entries = [] → (([] : List StreamDraw).map StreamDraw.amount).sum + amount =
          ([(⟨1, 100, 10, 107⟩ : TrancheWindow)].map TrancheWindow.creatorAmt).sum) :=
  streamRun_exact oneTrancheStream_run (by decide) (by decide) (by decide)

/-- A tranche booked at block time zero is lost: the stream is anchored at zero, which reads as
"never ran", so the first draw anchors it again at its own boundary. A draw at a boundary before
the anchoring instant fails. So does one that collects two tranches whose scaled amounts fit 256
bits each, but not together. -/
theorem stream_not_exact :
    (do
      let s ← scheduleCreatorStreamTranche 0 .empty 1 100 0 100
      let (s₁, amount₁, complete₁) ← drawCreatorStream s 100 5
      let (s₂, amount₂, complete₂) ← drawCreatorStream s₁ 200 5
      return (s.cursor, (amount₁, complete₁), (amount₂, complete₂), s₂.pending.entries.length)) =
        .ok (0, (0, true), (0, true), 0) ∧
    (do
      let s ← scheduleCreatorStreamTranche 100 .empty 1 100 100 200
      let (_, amount, _) ← drawCreatorStream s 50 5
      return amount) = .error (.streamRegression 100 50) ∧
    (do
      let s ← scheduleCreatorStreamTranche 100 .empty 1 ((2 ^ 256 - 1) / 10 ^ 18) 100 200
      let s ← scheduleCreatorStreamTranche 100 s 2 ((2 ^ 256 - 1) / 10 ^ 18) 100 200
      let (_, amount, _) ← drawCreatorStream s 200 5
      return amount) = .error .intOverflow := by
  refine ⟨?_, ?_, ?_⟩ <;> decide +kernel

/-- What has been drawn depends on the tranches alone: a complete draw that leaves no due
breakpoint brings the total to the whole tokens earned by its boundary, however the draws
before it were cut and whatever their budgets. -/
theorem streamRun_total {ws : List TrancheWindow} {ds : List StreamDraw} {floor : ℤ}
    {s s' : CreatorStream} {boundary amount : ℤ} {budget : ℕ} (h : StreamRun ws ds floor s)
    (hle : floor ≤ boundary) (hbudget : 0 < budget)
    (hrun : drawCreatorStream s boundary budget = .ok (s', amount, true))
    (hdue : ∀ e ∈ s'.pending.entries, boundary < (ofLex e.1).1) :
    (ds.map StreamDraw.amount).sum + amount = earnedTotal ws boundary / creatorStreamScale :=
  h.inv.total_drawn hle hbudget hrun hdue

theorem streamRun_total_halfway : ∃ s',
    drawCreatorStream oneTrancheStream 50 3 = .ok (s', 41, true) ∧
    0 + 41 = earnedTotal [⟨1, 100, 10, 107⟩] 50 / creatorStreamScale := by
  have hdraw : drawCreatorStream oneTrancheStream 50 3 = .ok (_, 41, true) := rfl
  exact ⟨_, hdraw, streamRun_total oneTrancheStream_run (by decide) (by decide) hdraw (by decide)⟩

end MirageNode
