import MirageNode.Lib.Fallible
import MirageNode.Lib.ProportionalSplit

/-!
# Dividing a mint among the validators

`keeper/mint_split.go`: a mint is cut into a floor pool, a work pool and a stake
pool, each divided by its own weights with the left-over handed to one
validator. The shares add up to the mint (`splitMint_exact`); the code asserts
this before it returns, so exactness and success are one result.

`sdkmath.Int` panics on a result of more than 256 bits. The panic is an error
here (`sdkInt`), so that a split that returns is one that did not overflow.
-/

namespace MirageNode

open Fallible ProportionalSplit List

inductive MintError where
  | noValidators
  | mintNotPositive (mint : ℤ)
  | totalStakeNotPositive (totalStake : ℤ)
  | negativePool (floor work : ℤ)
  | poolsExceedMint (floor work mint : ℤ)
  | notConserved (distributed mint floor work stake : ℤ)
  -- sdkmath
  | integerOverflow
  | decimalOverflow
deriving DecidableEq, Repr

/-! ## Integers and decimals -/

/-- The result of an `sdkmath.Int` operation: at most `MaxBitLen` bits. -/
def sdkInt (x : ℤ) : Except MintError ℤ := do
  failIf (x.natAbs ≥ 2 ^ 256) .integerOverflow
  return x

/-- The scale of a decimal: `LegacyPrecision` digits. -/
def decPrecision : ℤ := 10 ^ 18

/-- `LegacyDec`: a number of `10 ^ -18` units. -/
structure LegacyDec where
  raw : ℤ
deriving DecidableEq, Repr

/-- `LegacyDec.MulInt`, with the 315 bits a decimal may have. -/
def LegacyDec.mulInt (d : LegacyDec) (x : ℤ) : Except MintError LegacyDec := do
  failIf ((d.raw * x).natAbs ≥ 2 ^ 315) .decimalOverflow
  return ⟨d.raw * x⟩

def LegacyDec.truncateInt (d : LegacyDec) : Except MintError ℤ := sdkInt (d.raw.tdiv decPrecision)

/-- A sum built up by `Add`. -/
def sumInts (xs : List ℤ) : Except MintError ℤ :=
  xs.foldlM (fun acc x => sdkInt (acc + x)) 0

/-! ## The split -/

structure MintInput where
  tokens : ℤ
  creditsCapped : ℤ
deriving DecidableEq, Repr

structure MintShare where
  floor : ℤ
  work : ℤ
  stake : ℤ
deriving DecidableEq, Repr

def MintShare.total (s : MintShare) : ℤ := s.floor + s.work + s.stake

/-- One proportional allocation. Shares start at zero and only a positive
allocation is written. -/
def allocation (pool total weight : ℤ) : Except MintError ℤ := do
  let product ← sdkInt (weight * pool)
  let alloc := product.tdiv total
  return if alloc > 0 then alloc else 0

/-- Adds what the allocations leave of the pool at `position`. -/
def giveRemainder (pool : ℤ) (position : ℕ) (allocs : List ℤ) : Except MintError (List ℤ) := do
  let assigned ← sumInts allocs
  let rem ← sdkInt (pool - assigned)
  if rem > 0 then
    let grown ← sdkInt (allocs.getD position 0 + rem)
    return allocs.set position grown
  else return allocs

/-- The floor loop: equal parts, the remainder to the last position. -/
def floorPart (pool : ℤ) (n : ℕ) : Except MintError (List ℤ) :=
  giveRemainder pool (n - 1) (List.replicate n (pool.tdiv n))

/-- The loop that weights a pool by tokens, the remainder to the last position. -/
def stakePart (pool totalStake : ℤ) (vals : List MintInput) : Except MintError (List ℤ) := do
  let allocs ← vals.mapM fun v => allocation pool totalStake v.tokens
  giveRemainder pool (vals.length - 1) allocs

def lastWithCredits (vals : List MintInput) : Option ℕ :=
  vals.zipIdx.foldl (fun last v => if v.1.creditsCapped > 0 then some v.2 else last) none

/-- The loop that weights the work pool by credits, passing over validators
without any. The remainder follows the credits. -/
def creditPart (pool totalCredits : ℤ) (vals : List MintInput) : Except MintError (List ℤ) := do
  let allocs ← vals.mapM fun v =>
    if v.creditsCapped > 0 then allocation pool totalCredits v.creditsCapped else .ok 0
  match lastWithCredits vals with
  | some position => giveRemainder pool position allocs
  | none => return allocs

/-- The work pool: by credits, or by stake when nobody has any. -/
def workPart (pool totalStake : ℤ) (vals : List MintInput) : Except MintError (List ℤ) := do
  let totalCredits ← sumInts ((vals.map MintInput.creditsCapped).filter (· > 0))
  if totalCredits > 0 then creditPart pool totalCredits vals else stakePart pool totalStake vals

/-- A pool is divided only if there is something in it; the shares start at zero. -/
def ifPositive (pool : ℤ) (n : ℕ) (part : Except MintError (List ℤ)) : Except MintError (List ℤ) :=
  if pool > 0 then part else .ok (List.replicate n 0)

/-- The parts of the pools, put together for each validator. -/
def mintShares : List ℤ → List ℤ → List ℤ → List MintShare
  | floor :: floors, work :: works, stake :: stakes =>
    ⟨floor, work, stake⟩ :: mintShares floors works stakes
  | _, _, _ => []

/-- `splitMint`, from the decimals of the two split parameters on. -/
def splitMint (mint : ℤ) (floorDec dynDec : LegacyDec) (totalStake : ℤ) (vals : List MintInput) :
    Except MintError (List MintShare) := do
  failIf (vals = []) .noValidators
  failIf (¬ mint > 0) (.mintNotPositive mint)
  failIf (¬ totalStake > 0) (.totalStakeNotPositive totalStake)
  let floorPool ← (← floorDec.mulInt mint).truncateInt
  let workPool ← (← dynDec.mulInt mint).truncateInt
  failIf (floorPool < 0 ∨ workPool < 0) (.negativePool floorPool workPool)
  let both ← sdkInt (floorPool + workPool)
  failIf (both > mint) (.poolsExceedMint floorPool workPool mint)
  let stakePool := mint - floorPool - workPool
  let floors ← ifPositive floorPool vals.length (floorPart floorPool vals.length)
  let stakes ← ifPositive stakePool vals.length (stakePart stakePool totalStake vals)
  let works ← ifPositive workPool vals.length (workPart workPool totalStake vals)
  let shares := mintShares floors works stakes
  let distributed ← sumInts (shares.map MintShare.total)
  failIf (distributed ≠ mint) (.notConserved distributed mint floorPool workPool stakePool)
  return shares

/-! ## What the parts are -/

theorem sdkInt_eq_ok {x y : ℤ} : sdkInt x = .ok y ↔ x.natAbs < 2 ^ 256 ∧ x = y := by
  simp only [sdkInt, bind_eq_ok, failIf_eq_ok, pure_eq_ok, exists_const, not_le]

theorem sdkInt_of_bounds {x : ℤ} (hnonneg : 0 ≤ x) (hlt : x < 2 ^ 256) : sdkInt x = .ok x :=
  sdkInt_eq_ok.mpr ⟨by omega, rfl⟩

theorem sumInts_of_bounds {xs : List ℤ} (hnonneg : ∀ x ∈ xs, 0 ≤ x) (hlt : xs.sum < 2 ^ 256) :
    sumInts xs = .ok xs.sum := by
  suffices haux : ∀ acc, 0 ≤ acc → acc + xs.sum < 2 ^ 256 →
      xs.foldlM (fun acc x => sdkInt (acc + x)) acc = .ok (acc + xs.sum) by
    have hzero := haux 0 le_rfl (by rwa [zero_add])
    rwa [zero_add] at hzero
  clear hlt
  induction xs with
  | nil =>
    intro acc _ _
    rw [foldlM_nil, sum_nil, add_zero]
    rfl
  | cons x xs ih =>
    intro acc hacc hlt
    have hx : 0 ≤ x := hnonneg x mem_cons_self
    have htail : ∀ y ∈ xs, 0 ≤ y := fun y hy => hnonneg y (mem_cons_of_mem x hy)
    have hrest : 0 ≤ xs.sum := sum_nonneg htail
    rw [sum_cons, ← add_assoc] at hlt ⊢
    rw [foldlM_cons, sdkInt_of_bounds (by linarith) (by linarith), ok_bind]
    exact ih htail (acc + x) (by linarith) hlt

theorem allocation_eq {pool total weight : ℤ} (hpool : 0 ≤ pool) (htotal : 0 < total)
    (hweight : 0 ≤ weight) (hfits : weight * pool < 2 ^ 255) :
    allocation pool total weight = .ok (weight * pool / total) := by
  have hproduct : 0 ≤ weight * pool := mul_nonneg hweight hpool
  have hquot : (weight * pool).tdiv total = weight * pool / total :=
    Int.tdiv_eq_ediv_of_nonneg hproduct
  have halloc : 0 ≤ weight * pool / total := Int.ediv_nonneg hproduct htotal.le
  rw [allocation, sdkInt_of_bounds hproduct (by linarith), ok_bind, hquot]
  refine congrArg Except.ok ?_
  split
  · rfl
  · omega

variable {weight : MintInput → ℤ} {vals : List MintInput} {totalStake : ℤ}

theorem mapM_allocation {pool total : ℤ} {f : MintInput → Except MintError ℤ}
    (hf : ∀ v ∈ vals, f v = .ok (weight v * pool / total)) :
    vals.mapM f = .ok (floors pool total (vals.map weight)) := by
  induction vals with
  | nil => rfl
  | cons v vals ih =>
    have htail := ih fun u hu => hf u (mem_cons_of_mem v hu)
    rw [mapM_cons, hf v mem_cons_self, ok_bind, htail, ok_bind]
    rfl

theorem giveRemainder_eq {pool : ℤ} {position : ℕ} {allocs : List ℤ}
    (hnonneg : ∀ x ∈ allocs, 0 ≤ x) (hsum : allocs.sum ≤ pool) (hpool : pool < 2 ^ 255) :
    giveRemainder pool position allocs = .ok (topUp pool position allocs) := by
  have hsumnonneg : 0 ≤ allocs.sum := sum_nonneg hnonneg
  have hat : 0 ≤ allocs.getD position 0 ∧ allocs.getD position 0 ≤ allocs.sum := by
    rw [getD_eq_getElem?_getD]
    cases hget : allocs[position]? with
    | none => exact ⟨le_rfl, hsumnonneg⟩
    | some x =>
      have hmem : x ∈ allocs := mem_of_getElem? hget
      exact ⟨hnonneg x hmem, single_le_sum hnonneg x hmem⟩
  rw [giveRemainder, sumInts_of_bounds hnonneg (by linarith), ok_bind,
    sdkInt_of_bounds (by linarith) (by linarith), ok_bind]
  split
  · rw [sdkInt_of_bounds (by linarith) (by linarith), ok_bind]
    rfl
  · have hrem : pool - allocs.sum = 0 := by omega
    rw [topUp, hrem, add_zero]
    refine congrArg Except.ok (Eq.symm ?_)
    rcases lt_or_ge position allocs.length with hlt | hge
    · rw [getD_eq_getElem?_getD, List.getElem?_eq_getElem hlt, Option.getD_some,
        set_getElem_self]
    · exact set_eq_of_length_le hge

/-! ## Dividing one pool -/

/-- The parts add up to the pool and each validator's part is one `R` allows. -/
def Divided (pool : ℤ) (R : MintInput → ℤ → Prop) (vals : List MintInput) (parts : List ℤ) : Prop :=
  parts.sum = pool ∧ List.Forall₂ R vals parts

/-- Proportional parts with the remainder at `position`: the parts are the pool,
and whatever allows the exact floor, and more at `position`, allows the parts. -/
theorem divided_of_floors {pool total : ℤ} {position : ℕ} {R : MintInput → ℤ → Prop}
    (htotal : 0 < total) (hweights : (vals.map weight).sum = total)
    (hposition : position < vals.length) (hfloor : ∀ v ∈ vals, R v (weight v * pool / total))
    (hmore : ∀ v, vals[position]? = some v → ∀ x y, R v x → x ≤ y → R v y) :
    Divided pool R vals (topUp pool position (floors pool total (vals.map weight))) := by
  have hlength : position < (floors pool total (vals.map weight)).length := by
    simpa [floors] using hposition
  have hforall : List.Forall₂ R vals (floors pool total (vals.map weight)) := by
    simp only [floors, map_map, forall₂_map_right_iff]
    exact forall₂_same.mpr hfloor
  exact ⟨sum_topUp hlength, forall₂_topUp hforall (sum_floors_le htotal hweights) hmore⟩

theorem ifPositive_divided {pool : ℤ} {R : MintInput → ℤ → Prop} {part : Except MintError (List ℤ)}
    (hpool : 0 ≤ pool) (hpart : ∃ parts, part = .ok parts ∧ Divided pool R vals parts)
    (hzero : pool = 0 → ∀ v ∈ vals, R v 0) :
    ∃ parts, ifPositive pool vals.length part = .ok parts ∧ Divided pool R vals parts := by
  unfold ifPositive
  split
  · exact hpart
  next hnot =>
    have hnone : pool = 0 := le_antisymm (not_lt.mp hnot) hpool
    refine ⟨_, rfl, by simp [hnone], ?_⟩
    rw [← map_const', forall₂_map_right_iff]
    exact forall₂_same.mpr (hzero hnone)

/-- At least the floor of the proportional part. -/
def AtLeast (weight : MintInput → ℤ) (pool total : ℤ) (v : MintInput) (x : ℤ) : Prop :=
  weight v * pool / total ≤ x

theorem AtLeast.mono {pool total : ℤ} {v : MintInput} {x y : ℤ}
    (h : AtLeast weight pool total v x) (hxy : x ≤ y) : AtLeast weight pool total v y :=
  le_trans h hxy

theorem atLeast_zero {pool total : ℤ} (hpool : pool = 0) (v : MintInput) :
    AtLeast weight pool total v 0 := by
  simp [AtLeast, hpool]

theorem length_sub_one_lt (h : vals ≠ []) : vals.length - 1 < vals.length :=
  Nat.sub_lt (length_pos_iff.mpr h) one_pos

theorem floorPart_divided {pool : ℤ} (hvals : vals ≠ []) (hpool : 0 ≤ pool) (hlt : pool < 2 ^ 255) :
    ∃ parts, floorPart pool vals.length = .ok parts ∧
      Divided pool (AtLeast (fun _ => 1) pool vals.length) vals parts := by
  have hcount : (0 : ℤ) < vals.length := by exact_mod_cast length_pos_iff.mpr hvals
  have hones : (vals.map fun _ => (1 : ℤ)).sum = vals.length := by simp
  have hreplicate : List.replicate vals.length (pool.tdiv vals.length) =
      floors pool vals.length (vals.map fun _ => 1) := by
    simp [floors, Int.tdiv_eq_ediv_of_nonneg hpool]
  rw [floorPart, hreplicate]
  refine ⟨_, giveRemainder_eq (floors_nonneg hpool hcount.le ?_) (sum_floors_le hcount hones) hlt,
    divided_of_floors hcount hones (length_sub_one_lt hvals) (fun v _ => le_rfl)
      fun v _ x y hx hxy => hx.mono hxy⟩
  intro w hw
  obtain ⟨v, -, rfl⟩ := mem_map.mp hw
  exact zero_le_one

theorem stakePart_divided {pool : ℤ} (hvals : vals ≠ []) (htokens : ∀ v ∈ vals, 0 ≤ v.tokens)
    (hstake : (vals.map MintInput.tokens).sum = totalStake) (hpos : 0 < totalStake)
    (hpool : 0 ≤ pool) (hlt : pool < 2 ^ 255) (hfits : ∀ v ∈ vals, v.tokens * pool < 2 ^ 255) :
    ∃ parts, stakePart pool totalStake vals = .ok parts ∧
      Divided pool (AtLeast MintInput.tokens pool totalStake) vals parts := by
  have hallocs := mapM_allocation fun v hv => allocation_eq hpool hpos (htokens v hv) (hfits v hv)
  rw [stakePart, hallocs, ok_bind]
  refine ⟨_, giveRemainder_eq (floors_nonneg hpool hpos.le ?_) (sum_floors_le hpos hstake) hlt,
    divided_of_floors hpos hstake (length_sub_one_lt hvals) (fun v _ => le_rfl)
      fun v _ x y hx hxy => hx.mono hxy⟩
  intro w hw
  obtain ⟨v, hv, rfl⟩ := mem_map.mp hw
  exact htokens v hv

/-! ## The work pool -/

/-- What the work pool allows: by credits, and then nothing for a validator
without any, or by stake. -/
def WorkPaid (pool totalStake totalCredits : ℤ) (v : MintInput) (x : ℤ) : Prop :=
  if 0 < totalCredits then
    AtLeast MintInput.creditsCapped pool totalCredits v x ∧ (v.creditsCapped = 0 → x = 0)
  else AtLeast MintInput.tokens pool totalStake v x

theorem workPaid_zero {pool totalCredits : ℤ} (hpool : pool = 0) (v : MintInput) :
    WorkPaid pool totalStake totalCredits v 0 := by
  unfold WorkPaid
  split
  · exact ⟨atLeast_zero hpool v, fun _ => rfl⟩
  · exact atLeast_zero hpool v

/-- The last position found has credits. -/
theorem lastWithCredits_spec (h : ∃ v ∈ vals, 0 < v.creditsCapped) :
    ∃ position v, lastWithCredits vals = some position ∧ vals[position]? = some v ∧
      0 < v.creditsCapped := by
  -- The fold is followed over the part of the list still to come: it ends at a
  -- position of that part if that part has credits, and where it was otherwise.
  have haux : ∀ (es : List (MintInput × ℕ)) (last : Option ℕ),
      (∃ e ∈ es, 0 < e.1.creditsCapped) →
      ∃ e ∈ es, 0 < e.1.creditsCapped ∧ es.foldl
        (fun last v => if v.1.creditsCapped > 0 then some v.2 else last) last = some e.2 := by
    intro es
    induction es with
    | nil =>
      rintro _ ⟨e, he, -⟩
      exact absurd he not_mem_nil
    | cons e es ih =>
      intro last hex
      by_cases hrest : ∃ e ∈ es, 0 < e.1.creditsCapped
      · obtain ⟨e', he', hpos, hfold⟩ := ih _ hrest
        exact ⟨e', mem_cons_of_mem e he', hpos, hfold⟩
      · have hpos : 0 < e.1.creditsCapped := by
          obtain ⟨e', he', hpos⟩ := hex
          rcases mem_cons.mp he' with rfl | htail
          · exact hpos
          · exact absurd ⟨e', htail, hpos⟩ hrest
        refine ⟨e, mem_cons_self, hpos, ?_⟩
        rw [foldl_cons, if_pos hpos]
        clear ih hex
        induction es with
        | nil => rfl
        | cons e' es ih =>
          have hzero : ¬ e'.1.creditsCapped > 0 :=
            fun hpos' => hrest ⟨e', mem_cons_self, hpos'⟩
          rw [foldl_cons, if_neg hzero]
          exact ih fun ⟨u, hu, hupos⟩ => hrest ⟨u, mem_cons_of_mem e' hu, hupos⟩
  obtain ⟨v, hv, hpos⟩ := h
  obtain ⟨i, hi⟩ := mem_iff_getElem?.mp hv
  obtain ⟨e, he, hepos, hfold⟩ :=
    haux vals.zipIdx none ⟨(v, i), mem_zipIdx_iff_getElem?.mpr hi, hpos⟩
  exact ⟨e.2, e.1, hfold, mem_zipIdx_iff_getElem?.mp he, hepos⟩

theorem sum_credits_filter (hcredits : ∀ v ∈ vals, 0 ≤ v.creditsCapped) :
    ((vals.map MintInput.creditsCapped).filter (· > 0)).sum =
      (vals.map MintInput.creditsCapped).sum := by
  induction vals with
  | nil => rfl
  | cons v vals ih =>
    have htail := ih fun u hu => hcredits u (mem_cons_of_mem v hu)
    have hv := hcredits v mem_cons_self
    rw [map_cons, filter_cons, sum_cons]
    split
    · rw [sum_cons, htail]
    next hzero =>
      simp only [gt_iff_lt, decide_eq_true_eq, not_lt] at hzero
      rw [htail, le_antisymm hzero hv, zero_add]

theorem exists_pos_of_sum_pos
    (h : 0 < (vals.map MintInput.creditsCapped).sum) : ∃ v ∈ vals, 0 < v.creditsCapped := by
  by_contra hnone
  push Not at hnone
  have hle : (vals.map MintInput.creditsCapped).sum ≤
      (vals.map MintInput.creditsCapped).length • (0 : ℤ) := by
    refine sum_le_card_nsmul _ _ fun w hw => ?_
    obtain ⟨v, hv, rfl⟩ := mem_map.mp hw
    exact hnone v hv
  rw [nsmul_zero] at hle
  exact absurd h (not_lt.mpr hle)

theorem creditPart_divided {pool totalCredits : ℤ} (hcredits : ∀ v ∈ vals, 0 ≤ v.creditsCapped)
    (hsum : (vals.map MintInput.creditsCapped).sum = totalCredits) (hpos : 0 < totalCredits)
    (hpool : 0 ≤ pool) (hlt : pool < 2 ^ 255)
    (hfits : ∀ v ∈ vals, v.creditsCapped * pool < 2 ^ 255) :
    ∃ parts, creditPart pool totalCredits vals = .ok parts ∧
      Divided pool (fun v x => AtLeast MintInput.creditsCapped pool totalCredits v x ∧
        (v.creditsCapped = 0 → x = 0)) vals parts := by
  have hallocs : vals.mapM (fun v => if v.creditsCapped > 0 then
      allocation pool totalCredits v.creditsCapped else .ok 0) =
      .ok (floors pool totalCredits (vals.map MintInput.creditsCapped)) := by
    refine mapM_allocation fun v hv => ?_
    split
    · exact allocation_eq hpool hpos (hcredits v hv) (hfits v hv)
    next hzero =>
      have hv0 : v.creditsCapped = 0 := le_antisymm (not_lt.mp hzero) (hcredits v hv)
      rw [hv0, zero_mul, Int.zero_ediv]
  obtain ⟨position, u, hlast, hu, hupos⟩ :=
    lastWithCredits_spec (exists_pos_of_sum_pos (hsum ▸ hpos))
  have hposition : position < vals.length := (List.getElem?_eq_some_iff.mp hu).1
  rw [creditPart, hallocs, ok_bind, hlast]
  refine ⟨_, giveRemainder_eq (floors_nonneg hpool hpos.le ?_) (sum_floors_le hpos hsum) hlt,
    divided_of_floors hpos hsum hposition ?_ ?_⟩
  · intro w hw
    obtain ⟨v, hv, rfl⟩ := mem_map.mp hw
    exact hcredits v hv
  · intro v _
    exact ⟨le_rfl, fun hzero => by rw [hzero, zero_mul, Int.zero_ediv]⟩
  · -- Only the validator at `position` gets more, and it has credits.
    rintro v hv x y ⟨hx, -⟩ hxy
    obtain rfl : u = v := Option.some.inj (hu.symm.trans hv)
    exact ⟨hx.mono hxy, fun hzero => absurd hzero hupos.ne'⟩

theorem workPart_divided {pool : ℤ} (hvals : vals ≠ [])
    (htokens : ∀ v ∈ vals, 0 ≤ v.tokens) (hcredits : ∀ v ∈ vals, 0 ≤ v.creditsCapped)
    (hstake : (vals.map MintInput.tokens).sum = totalStake) (hpos : 0 < totalStake)
    (hpool : 0 ≤ pool) (hlt : pool < 2 ^ 255)
    (hsum : (vals.map MintInput.creditsCapped).sum < 2 ^ 256)
    (hfits : ∀ v ∈ vals, v.tokens * pool < 2 ^ 255 ∧ v.creditsCapped * pool < 2 ^ 255) :
    ∃ parts, workPart pool totalStake vals = .ok parts ∧
      Divided pool (WorkPaid pool totalStake (vals.map MintInput.creditsCapped).sum) vals
        parts := by
  have htotal : sumInts ((vals.map MintInput.creditsCapped).filter (· > 0)) =
      .ok (vals.map MintInput.creditsCapped).sum := by
    rw [← sum_credits_filter hcredits] at hsum ⊢
    refine sumInts_of_bounds (fun x hx => ?_) hsum
    exact (decide_eq_true_eq.mp (mem_filter.mp hx).2).le
  rw [workPart, htotal, ok_bind]
  by_cases hany : 0 < (vals.map MintInput.creditsCapped).sum
  · obtain ⟨parts, hparts, hsum', hpaid⟩ :=
      creditPart_divided hcredits rfl hany hpool hlt fun v hv => (hfits v hv).2
    refine ⟨parts, by rw [if_pos hany, hparts], hsum', hpaid.imp fun v x hx => ?_⟩
    rwa [WorkPaid, if_pos hany]
  · obtain ⟨parts, hparts, hsum', hpaid⟩ :=
      stakePart_divided hvals htokens hstake hpos hpool hlt fun v hv => (hfits v hv).1
    refine ⟨parts, by rw [if_neg hany, hparts], hsum', hpaid.imp fun v x hx => ?_⟩
    rwa [WorkPaid, if_neg hany]

/-! ## The whole split -/

theorem mintShares_divided {floorPool workPool stakePool : ℤ} {F W S : MintInput → ℤ → Prop}
    {floors works stakes : List ℤ} (hfloors : Divided floorPool F vals floors)
    (hworks : Divided workPool W vals works) (hstakes : Divided stakePool S vals stakes) :
    ((mintShares floors works stakes).map MintShare.total).sum = floorPool + workPool + stakePool ∧
      List.Forall₂ (fun v s => F v s.floor ∧ W v s.work ∧ S v s.stake) vals
        (mintShares floors works stakes) := by
  obtain ⟨rfl, hF⟩ := hfloors
  obtain ⟨rfl, hW⟩ := hworks
  obtain ⟨rfl, hS⟩ := hstakes
  induction hF generalizing works stakes with
  | nil =>
    cases hW
    cases hS
    exact ⟨rfl, .nil⟩
  | cons hf _ ih =>
    obtain _ | ⟨hw, hW⟩ := hW
    obtain _ | ⟨hs, hS⟩ := hS
    obtain ⟨hsum, hall⟩ := ih hW hS
    refine ⟨?_, .cons ⟨hf, hw, hs⟩ hall⟩
    simp only [mintShares, map_cons, sum_cons, hsum, MintShare.total]
    ring

/-- A decimal share of the mint, rounded down. -/
def LegacyDec.pool (d : LegacyDec) (mint : ℤ) : ℤ := d.raw * mint / decPrecision

/-- The pool the code computes. A product of a mint below `2 ^ 255` with a share
of at most one has the 315 bits of a decimal, so this step never panics. -/
theorem pool_eq {d : LegacyDec} {mint : ℤ} (hnonneg : 0 ≤ d.raw) (hle : d.raw ≤ decPrecision)
    (hmint : 0 ≤ mint) (hlt : mint < 2 ^ 255) :
    d.mulInt mint = .ok ⟨d.raw * mint⟩ ∧
      LegacyDec.truncateInt ⟨d.raw * mint⟩ = .ok (d.pool mint) := by
  have hproduct : 0 ≤ d.raw * mint := mul_nonneg hnonneg hmint
  have hbound : d.raw * mint ≤ 10 ^ 18 * mint := mul_le_mul_of_nonneg_right hle hmint
  have hbits : ¬ (d.raw * mint).natAbs ≥ 2 ^ 315 := by omega
  have hpool : (d.raw * mint).tdiv decPrecision = d.pool mint := Int.tdiv_eq_ediv_of_nonneg hproduct
  have hpoolNonneg : 0 ≤ d.pool mint := Int.ediv_nonneg hproduct (by decide)
  have hpoolLt : d.pool mint < 2 ^ 256 := by
    rw [LegacyDec.pool, decPrecision]
    omega
  constructor
  · rw [LegacyDec.mulInt, failIf_of_not _ hbits, ok_bind]
    rfl
  · rw [LegacyDec.truncateInt, hpool, sdkInt_of_bounds hpoolNonneg hpoolLt]

theorem pools_le {floorDec dynDec : LegacyDec} {mint : ℤ} (hmint : 0 ≤ mint)
    (hsum : floorDec.raw + dynDec.raw ≤ decPrecision) :
    floorDec.pool mint + dynDec.pool mint ≤ mint := by
  have hboth : floorDec.raw * mint + dynDec.raw * mint ≤ 10 ^ 18 * mint := by
    rw [← add_mul]
    exact mul_le_mul_of_nonneg_right hsum hmint
  rw [LegacyDec.pool, LegacyDec.pool, decPrecision]
  omega

/-- The products the split forms are below `2 ^ 255`. -/
structure ProductsFit (mint workPool stakePool : ℤ) (vals : List MintInput) : Prop where
  mint : mint < 2 ^ 255
  stake : ∀ v ∈ vals, v.tokens * stakePool < 2 ^ 255
  idle : ∀ v ∈ vals, v.tokens * workPool < 2 ^ 255
  work : ∀ v ∈ vals, v.creditsCapped * workPool < 2 ^ 255

/-- What one validator's share has to be. -/
structure FairShare (floorPool workPool stakePool totalStake : ℤ) (vals : List MintInput)
    (v : MintInput) (s : MintShare) : Prop where
  nonneg : 0 ≤ s.floor ∧ 0 ≤ s.work ∧ 0 ≤ s.stake
  floor : floorPool / vals.length ≤ s.floor
  stake : v.tokens * stakePool / totalStake ≤ s.stake
  work : (∃ u ∈ vals, 0 < u.creditsCapped) →
    v.creditsCapped * workPool / (vals.map MintInput.creditsCapped).sum ≤ s.work ∧
      (v.creditsCapped = 0 → s.work = 0)
  idle : (∀ u ∈ vals, u.creditsCapped = 0) → v.tokens * workPool / totalStake ≤ s.work

theorem sum_credits_pos (hcredits : ∀ v ∈ vals, 0 ≤ v.creditsCapped)
    (h : ∃ v ∈ vals, 0 < v.creditsCapped) : 0 < (vals.map MintInput.creditsCapped).sum := by
  obtain ⟨v, hv, hpos⟩ := h
  refine lt_of_lt_of_le hpos (single_le_sum (fun w hw => ?_) _ (mem_map_of_mem hv))
  obtain ⟨u, hu, rfl⟩ := mem_map.mp hw
  exact hcredits u hu

theorem fairShare_of_paid {floorPool workPool stakePool : ℤ}
    (htokens : ∀ v ∈ vals, 0 ≤ v.tokens) (hcredits : ∀ v ∈ vals, 0 ≤ v.creditsCapped)
    (hpos : 0 < totalStake) (hfloorPool : 0 ≤ floorPool) (hworkPool : 0 ≤ workPool)
    (hstakePool : 0 ≤ stakePool) {v : MintInput} (hv : v ∈ vals) {s : MintShare}
    (hfloor : AtLeast (fun _ => 1) floorPool vals.length v s.floor)
    (hwork : WorkPaid workPool totalStake (vals.map MintInput.creditsCapped).sum v s.work)
    (hstake : AtLeast MintInput.tokens stakePool totalStake v s.stake) :
    FairShare floorPool workPool stakePool totalStake vals v s := by
  have hfloor' : floorPool / vals.length ≤ s.floor := by simpa [AtLeast] using hfloor
  have htokens' : ∀ pool, 0 ≤ pool → 0 ≤ v.tokens * pool / totalStake := fun pool hpool =>
    Int.ediv_nonneg (mul_nonneg (htokens v hv) hpool) hpos.le
  have hworkNonneg : 0 ≤ s.work := by
    unfold WorkPaid at hwork
    split at hwork
    next hany =>
      refine le_trans (Int.ediv_nonneg ?_ hany.le) hwork.1
      exact mul_nonneg (hcredits v hv) hworkPool
    next => exact le_trans (htokens' workPool hworkPool) hwork
  refine ⟨⟨?_, hworkNonneg, ?_⟩, hfloor', hstake, fun hany => ?_, fun hnone => ?_⟩
  · exact le_trans (Int.ediv_nonneg hfloorPool (Int.natCast_nonneg _)) hfloor'
  · exact le_trans (htokens' stakePool hstakePool) hstake
  · rwa [WorkPaid, if_pos (sum_credits_pos hcredits hany)] at hwork
  · have hzero : ¬ 0 < (vals.map MintInput.creditsCapped).sum := fun hany => by
      obtain ⟨u, hu, hupos⟩ := exists_pos_of_sum_pos hany
      exact absurd (hnone u hu) hupos.ne'
    rwa [WorkPaid, if_neg hzero] at hwork

theorem FairShare.total_nonneg {floorPool workPool stakePool : ℤ}
    {us : List MintInput} {shares : List MintShare}
    (h : List.Forall₂ (FairShare floorPool workPool stakePool totalStake vals) us shares) :
    ∀ x ∈ shares.map MintShare.total, 0 ≤ x := by
  induction h with
  | nil => exact fun x hx => absurd hx not_mem_nil
  | cons hfair _ ih =>
    refine forall_mem_cons.mpr ⟨?_, ih⟩
    obtain ⟨hfloor, hwork, hstake⟩ := hfair.nonneg
    exact add_nonneg (add_nonneg hfloor hwork) hstake

/-- The split of every mint succeeds, hands out the mint exactly and pays each
validator at least its rounded part of the pools it takes part in. -/
theorem splitMint_exact {mint totalStake : ℤ} {floorDec dynDec : LegacyDec} {vals : List MintInput}
    (hvals : vals ≠ []) (htokens : ∀ v ∈ vals, 0 ≤ v.tokens)
    (hcredits : ∀ v ∈ vals, 0 ≤ v.creditsCapped)
    (hstake : (vals.map MintInput.tokens).sum = totalStake) (hpos : 0 < totalStake)
    (hmint : 0 < mint) (hfloor : 0 ≤ floorDec.raw) (hdyn : 0 ≤ dynDec.raw)
    (hshares : floorDec.raw + dynDec.raw ≤ decPrecision)
    (hfits : ProductsFit mint (dynDec.pool mint)
      (mint - floorDec.pool mint - dynDec.pool mint) vals)
    (hsum : (vals.map MintInput.creditsCapped).sum < 2 ^ 256) :
    ∃ shares, splitMint mint floorDec dynDec totalStake vals = .ok shares ∧
      (shares.map MintShare.total).sum = mint ∧
      List.Forall₂ (FairShare (floorDec.pool mint) (dynDec.pool mint)
        (mint - floorDec.pool mint - dynDec.pool mint) totalStake vals) vals shares := by
  have hmintNonneg : 0 ≤ mint := hmint.le
  have hfloorPool : 0 ≤ floorDec.pool mint :=
    Int.ediv_nonneg (mul_nonneg hfloor hmintNonneg) (by decide)
  have hworkPool : 0 ≤ dynDec.pool mint := Int.ediv_nonneg (mul_nonneg hdyn hmintNonneg) (by decide)
  have hpools : floorDec.pool mint + dynDec.pool mint ≤ mint := pools_le hmintNonneg hshares
  have hlt := hfits.mint
  set floorPool := floorDec.pool mint with hfloorDef
  set workPool := dynDec.pool mint with hworkDef
  set stakePool := mint - floorPool - workPool with hstakeDef
  have hstakePool : 0 ≤ stakePool := by linarith
  obtain ⟨floors, hfloors, hfloorsDiv⟩ :=
    ifPositive_divided hfloorPool (floorPart_divided hvals hfloorPool (by linarith))
      fun hnone v _ => atLeast_zero hnone v
  obtain ⟨stakes, hstakes, hstakesDiv⟩ := ifPositive_divided hstakePool
    (stakePart_divided hvals htokens hstake hpos hstakePool (by linarith) hfits.stake)
      fun hnone v _ => atLeast_zero hnone v
  obtain ⟨works, hworks, hworksDiv⟩ := ifPositive_divided hworkPool
    (workPart_divided hvals htokens hcredits hstake hpos hworkPool (by linarith) hsum
      fun v hv => ⟨hfits.idle v hv, hfits.work v hv⟩)
    fun hnone v _ => workPaid_zero hnone v
  obtain ⟨htotal, hpaid⟩ := mintShares_divided hfloorsDiv hworksDiv hstakesDiv
  have hfair : List.Forall₂ (FairShare floorPool workPool stakePool totalStake vals) vals
      (mintShares floors works stakes) := by
    refine ((forall₂_and_left _ _).mpr ⟨fun v hv => hv, hpaid⟩).imp ?_
    rintro v s ⟨hv, hF, hW, hS⟩
    exact fairShare_of_paid htokens hcredits hpos hfloorPool hworkPool hstakePool hv hF hW hS
  have hmintSum : ((mintShares floors works stakes).map MintShare.total).sum = mint := by
    rw [htotal]
    ring
  have hdistributed : sumInts ((mintShares floors works stakes).map MintShare.total) = .ok mint :=
    (sumInts_of_bounds (FairShare.total_nonneg hfair) (by linarith)).trans (by rw [hmintSum])
  refine ⟨mintShares floors works stakes, ?_, hmintSum, hfair⟩
  obtain ⟨hfloorMul, hfloorTrunc⟩ := pool_eq hfloor (by linarith) hmintNonneg hlt
  obtain ⟨hdynMul, hdynTrunc⟩ := pool_eq hdyn (by linarith) hmintNonneg hlt
  have hnotNeg : ¬ (floorPool < 0 ∨ workPool < 0) := by omega
  rw [splitMint, failIf_of_not _ hvals, ok_bind, failIf_of_not _ (not_not.mpr hmint), ok_bind,
    failIf_of_not _ (not_not.mpr hpos), ok_bind, hfloorMul, ok_bind, hfloorTrunc, ok_bind, hdynMul,
    ok_bind, hdynTrunc, ok_bind, failIf_of_not _ hnotNeg, ok_bind,
    sdkInt_of_bounds (by linarith) (by linarith), ok_bind, failIf_of_not _ (not_lt.mpr hpools),
    ok_bind]
  simp only [← hfloorDef, ← hworkDef, ← hstakeDef, hfloors, hstakes, hworks, ok_bind, hdistributed]
  rw [failIf_of_not _ (not_not.mpr rfl), ok_bind]
  rfl

/-- Three validators, two of which relayed. -/
def threeValidators : List MintInput := [⟨50, 3⟩, ⟨30, 0⟩, ⟨20, 4⟩]

theorem splitMint_exact_threeValidators :
    ∃ shares, splitMint 1000 ⟨10 ^ 17⟩ ⟨10 ^ 17⟩ 100 threeValidators = .ok shares ∧
      (shares.map MintShare.total).sum = 1000 ∧
      List.Forall₂ (FairShare 100 100 800 100 threeValidators) threeValidators shares :=
  splitMint_exact (by decide) (by decide) (by decide) (by decide) (by decide) (by decide)
    (by decide) (by decide) (by decide)
    ⟨by decide, by decide, by decide, by decide⟩ (by decide)

/-- Each product below `2 ^ 255` does not bound the sum of the credits: three
validators with `2 ^ 255 - 1` credits each make `totalCredits` overflow. -/
theorem splitMint_overflows_on_credit_sum :
    let vals : List MintInput := List.replicate 3 ⟨1, 2 ^ 255 - 1⟩
    (vals.map MintInput.tokens).sum = 3 ∧ ProductsFit 1 (LegacyDec.pool ⟨10 ^ 18⟩ 1) 0 vals ∧
      splitMint 1 ⟨0⟩ ⟨10 ^ 18⟩ 3 vals = .error .integerOverflow := by
  refine ⟨by decide, ⟨by decide, by decide, by decide, by decide⟩, by decide +kernel⟩

end MirageNode
