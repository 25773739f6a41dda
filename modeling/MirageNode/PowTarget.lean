import MirageNode.Lib.Fallible
import MirageNode.Lib.TaggedFields
import Mathlib.Algebra.Order.Floor.Ring
import Mathlib.Data.Rat.Floor
import Mathlib.Tactic.FieldSimp

/-!
# The target of a proof of work

`app/ante_pow.go`: a difficulty step multiplies the work by `1 + powFactor`. The
factor is an exact rational power, rounded and capped (`computeDifficultyFactor`),
and the target shrinks by it. A harder step never has an easier target
(`exactTarget_antitone`).

`big.Rat.SetFloat64` is exact, so the float parameter is the rational it spells.
-/

namespace MirageNode

open Fallible TaggedFields

/-- The errors of the work check. -/
inductive WorkError where
  | powFactor
  | difficultyTooHigh
  | blockHashEmpty
  | blockHashUnknown
  | insufficientWork
deriving DecidableEq, Repr

def baseDifficultyFactor : ℕ := 1000

def maxSafeDifficultyFactor : ℕ := 2 ^ 53 - 1

def maxSafeDifficultySteps : ℕ := 10000

/-- The loop of `ratPowCapped`: square and multiply. A square above the cap is
replaced by `cap + 1`, which keeps it above the cap. -/
def ratPowLoop (cap result b : ℚ) (exp : ℕ) : Option ℚ :=
  if _h : exp = 0 then some result
  else
    let multiplied := if exp % 2 = 1 then result * b else result
    if exp % 2 = 1 ∧ multiplied > cap then none
    else
      let squared := if exp / 2 = 0 then b else if b * b > cap then cap + 1 else b * b
      ratPowLoop cap multiplied squared (exp / 2)
termination_by exp

/-- `ratPowCapped`, with `none` for the source's nil. -/
def ratPowCapped (base : ℚ) (exp : ℕ) (cap : ℚ) : Option ℚ := ratPowLoop cap 1 base exp

def roundRatToUint64 (r : ℚ) : ℕ :=
  if r ≤ 0 then 0
  else
    let q := r.num.toNat / r.den
    let rem := r.num.toNat % r.den
    let rounded := if 2 * rem ≥ r.den then q + 1 else q
    if rounded < 2 ^ 64 then rounded else maxSafeDifficultyFactor

def computeDifficultyFactor (powFactor : ℚ) (difficultySteps : ℕ) : Except WorkError ℕ := do
  failIf (powFactor ≤ 0 ∨ powFactor > 1) .powFactor
  if difficultySteps = 0 then return baseDifficultyFactor
  else if difficultySteps > maxSafeDifficultySteps then return maxSafeDifficultyFactor
  else
    let cap : ℚ := maxSafeDifficultyFactor / baseDifficultyFactor
    match ratPowCapped (powFactor + 1) difficultySteps cap with
    | none => return maxSafeDifficultyFactor
    | some powered =>
      let exact := powered * baseDifficultyFactor
      if exact > maxSafeDifficultyFactor then return maxSafeDifficultyFactor
      else
        let factor := roundRatToUint64 exact
        if factor < baseDifficultyFactor then return baseDifficultyFactor
        else if factor > maxSafeDifficultyFactor then return maxSafeDifficultyFactor
        else return factor

def computeTarget (baseBits difficultySteps : ℕ) (powFactor : ℚ) : Except WorkError ℕ := do
  let difficultyFactor ← computeDifficultyFactor powFactor difficultySteps
  let baseTarget := 2 ^ 256 / 2 ^ baseBits
  return baseTarget * baseDifficultyFactor / difficultyFactor

/-- The block hashes an envelope may name, as the bytes their hex texts spell. -/
structure HashWindow where
  currentLastID : List UInt8
  lookupHash : List UInt8 → Bool
  skipHashCheck : Bool

/-- The check on `last_block_hash`. -/
def HashWindow.check (w : HashWindow) (lastBlockHash : List UInt8) : Except WorkError Unit := do
  failIf (w.skipHashCheck = false ∧ lastBlockHash = []) .blockHashEmpty
  failIf (w.skipHashCheck = false ∧ lastBlockHash ≠ w.currentLastID ∧
    w.lookupHash lastBlockHash = false) .blockHashUnknown

/-- What the check of one message's work reads besides the message. -/
structure WorkRules where
  hashes : HashWindow
  required : ℕ
  prev : ℕ
  lastChange : ℤ
  gracePeriod : ℕ
  currentHeight : ℤ
  baseBits : ℕ
  powFactor : ℚ

/-- The lowest difficulty the chain accepts: the required one or, in the grace
period after a change, the one before it. -/
def WorkRules.minRequired (w : WorkRules) : ℕ :=
  if w.gracePeriod > 0 ∧ w.lastChange > 0 ∧ w.currentHeight - w.lastChange ≤ w.gracePeriod ∧
      w.prev < w.required then w.prev
  else w.required

/-- `validatePoWBytesArgon2`, over the number that the 32 bytes of Argon2id spell. -/
def validatePoWBytesArgon2 (idKey : List UInt8 → List UInt8 → ℕ) (w : WorkRules)
    (canonical lastBlockHash : List UInt8) (difficulty pow : ℕ) : Except WorkError Unit := do
  failIf (difficulty > maxSafeDifficultySteps) .difficultyTooHigh
  let effectiveRequired := max difficulty w.minRequired
  w.hashes.check lastBlockHash
  let guess := canonical ++ 58 :: uvarint pow
  let effTarget ← computeTarget w.baseBits effectiveRequired w.powFactor
  failIf (idKey guess lastBlockHash > effTarget) .insufficientWork

/-! ## The power -/

variable {cap : ℚ} {exp : ℕ}

theorem ratPowLoop_eq {result b : ℚ} (hresult : 1 ≤ result) (hcap : result ≤ cap) (hb : 1 ≤ b) :
    ratPowLoop cap result b exp =
      if result * b ^ exp ≤ cap then some (result * b ^ exp) else none := by
  induction exp using Nat.strong_induction_on generalizing result b with
  | _ exp ih =>
    rw [ratPowLoop]
    by_cases hzero : exp = 0
    · rw [dif_pos hzero, hzero, pow_zero, mul_one, if_pos hcap]
    have hhalf : exp / 2 < exp := Nat.div_lt_self (Nat.pos_of_ne_zero hzero) one_lt_two
    have hresult0 : 0 ≤ result := zero_le_one.trans hresult
    -- The exact power, taken apart the way the loop takes the exponent apart.
    have hsplit : result * b ^ exp =
        (if exp % 2 = 1 then result * b else result) * (b * b) ^ (exp / 2) := by
      conv_lhs => rw [← Nat.div_add_mod exp 2, pow_add, pow_mul]
      rcases Nat.mod_two_eq_zero_or_one exp with hmod | hmod
      · rw [hmod, pow_zero, mul_one, if_neg Nat.zero_ne_one, sq]
      · rw [hmod, pow_one, if_pos rfl, sq]
        ring
    rw [dif_neg hzero]
    simp only [hsplit]
    set multiplied := if exp % 2 = 1 then result * b else result with hmul
    have hgrow : result ≤ multiplied := by
      rw [hmul]
      split
      · exact le_mul_of_one_le_right hresult0 hb
      · exact le_rfl
    have hone : 1 ≤ multiplied := hresult.trans hgrow
    have hbb : 1 ≤ b * b := one_le_mul_of_one_le_of_one_le hb hb
    have hle : multiplied ≤ multiplied * (b * b) ^ (exp / 2) :=
      le_mul_of_one_le_right (zero_le_one.trans hone) (one_le_pow₀ hbb)
    by_cases hover : exp % 2 = 1 ∧ multiplied > cap
    · rw [if_pos hover, if_neg (not_le.mpr (hover.2.trans_le hle))]
    have hfits : multiplied ≤ cap := by
      by_cases hodd : exp % 2 = 1
      · exact not_lt.mp fun h => hover ⟨hodd, h⟩
      · rw [hmul, if_neg hodd]
        exact hcap
    rw [if_neg hover]
    by_cases hlast : exp / 2 = 0
    · rw [if_pos hlast, ih _ hhalf hone hfits hb, hlast, pow_zero, pow_zero]
    rw [if_neg hlast]
    by_cases hclip : b * b > cap
    · -- Both the exact square and the stand-in put the rest above the cap.
      have habove : ∀ x : ℚ, 1 ≤ x → x > cap → ¬ multiplied * x ^ (exp / 2) ≤ cap := by
        intro x hx hxcap
        have hpow : x ≤ x ^ (exp / 2) := le_self_pow₀ hx hlast
        have hpos : x ^ (exp / 2) ≤ multiplied * x ^ (exp / 2) :=
          le_mul_of_one_le_left (zero_le_one.trans (hx.trans hpow)) hone
        exact not_le.mpr (hxcap.trans_le (hpow.trans hpos))
      have hcap1 : 1 ≤ cap + 1 := by linarith [hone.trans hfits]
      rw [if_pos hclip, ih _ hhalf hone hfits hcap1, if_neg (habove _ hcap1 (lt_add_one cap)),
        if_neg (habove _ hbb hclip)]
    · rw [if_neg hclip, ih _ hhalf hone hfits hbb]

/-- With both `b` and its square above the cap, no positive exponent gives a result. -/
theorem ratPowLoop_of_gt {b : ℚ} (hb : cap < b) (hsq : cap < b * b)
    (hexp : exp ≠ 0) : ratPowLoop cap 1 b exp = none := by
  induction exp using Nat.strong_induction_on generalizing b with
  | _ exp ih =>
    rw [ratPowLoop, dif_neg hexp]
    rcases Nat.mod_two_eq_zero_or_one exp with heven | hodd
    · have hhalf : exp / 2 ≠ 0 := by omega
      have hstand : cap < (cap + 1) * (cap + 1) := by nlinarith [sq_nonneg (cap + 1)]
      have hrest := ih (exp / 2) (by omega) (lt_add_one cap) hstand hhalf
      simpa [heven, hhalf, hsq] using hrest
    · simp [hodd, hb]

/-- The power, for every cap but one below 1 with the exponent 0: there the loop is not entered
and the result is 1. -/
theorem ratPowCapped_eq {base : ℚ} (hbase : 1 ≤ base) (hcap : exp ≠ 0 ∨ 1 ≤ cap) :
    ratPowCapped base exp cap = if base ^ exp ≤ cap then some (base ^ exp) else none := by
  rcases le_or_gt 1 cap with hone | hbelow
  · rw [ratPowCapped, ratPowLoop_eq le_rfl hone hbase, one_mul]
  · have hpow : cap < base ^ exp := hbelow.trans_le (one_le_pow₀ hbase)
    have hsq : cap < base * base := hbelow.trans_le (one_le_mul_of_one_le_of_one_le hbase hbase)
    rw [if_neg (not_le.mpr hpow), ratPowCapped]
    exact ratPowLoop_of_gt (hbelow.trans_le hbase) hsq (hcap.resolve_right (not_le.mpr hbelow))

/-! ## The factor and the target -/

/-- The exact factor of `n` steps, rounded half up and kept in range. -/
def exactFactor (powFactor : ℚ) (n : ℕ) : ℕ :=
  min maxSafeDifficultyFactor
    (max baseDifficultyFactor ⌊baseDifficultyFactor * (1 + powFactor) ^ n + 1 / 2⌋.toNat)

/-- Rounding is the floor half a unit up, as long as that fits. -/
theorem roundRatToUint64_eq {r : ℚ} (hr : 0 < r) (hfits : ⌊r + 1 / 2⌋ < 2 ^ 64) :
    roundRatToUint64 r = ⌊r + 1 / 2⌋.toNat := by
  have hnum : (r.num.toNat : ℤ) = r.num := Int.toNat_of_nonneg (Rat.num_nonneg.mpr hr.le)
  have hden : (0 : ℚ) < r.den := by exact_mod_cast r.den_pos
  have hdiv : (r.den : ℚ) * (r.num.toNat / r.den : ℕ) + (r.num.toNat % r.den : ℕ) = r.den * r := by
    have hnat : r.den * (r.num.toNat / r.den) + r.num.toNat % r.den = r.num.toNat :=
      Nat.div_add_mod _ _
    have hcast : ((r.num.toNat : ℕ) : ℚ) = r.num := by exact_mod_cast hnum
    calc (r.den : ℚ) * (r.num.toNat / r.den : ℕ) + (r.num.toNat % r.den : ℕ)
        = (r.num.toNat : ℕ) := by exact_mod_cast hnat
      _ = r.den * r := by rw [hcast, Rat.den_mul_eq_num]
  have hmod : ((r.num.toNat % r.den : ℕ) : ℚ) < r.den := by
    exact_mod_cast Nat.mod_lt _ r.den_pos
  set q := r.num.toNat / r.den with hq
  set rem := r.num.toNat % r.den with hrem
  have hrounded : ⌊r + 1 / 2⌋ = ((if 2 * rem ≥ r.den then q + 1 else q : ℕ) : ℤ) := by
    have hrem0 : (0 : ℚ) ≤ rem := Nat.cast_nonneg rem
    rw [Int.floor_eq_iff]
    split
    next hup =>
      have hup' : (r.den : ℚ) ≤ 2 * rem := by exact_mod_cast hup
      push_cast
      constructor
      · refine le_of_mul_le_mul_left ?_ hden
        linarith
      · refine lt_of_mul_lt_mul_left ?_ hden.le
        linarith
    next hdown =>
      have hdown' : 2 * (rem : ℚ) < r.den := by exact_mod_cast not_le.mp hdown
      push_cast
      constructor
      · refine le_of_mul_le_mul_left ?_ hden
        linarith
      · refine lt_of_mul_lt_mul_left ?_ hden.le
        linarith
  rw [roundRatToUint64, if_neg (not_le.mpr hr)]
  simp only [← hq, ← hrem]
  rw [hrounded, Int.toNat_natCast, if_pos]
  rw [hrounded] at hfits
  exact_mod_cast hfits

variable {powFactor : ℚ} {n : ℕ}

theorem computeDifficultyFactor_eq (hpos : 0 < powFactor) (hle : powFactor ≤ 1)
    (hn : n ≤ maxSafeDifficultySteps) :
    computeDifficultyFactor powFactor n = .ok (exactFactor powFactor n) := by
  have hbase : (1 : ℚ) ≤ powFactor + 1 := by linarith
  have hpow : (1 : ℚ) ≤ (powFactor + 1) ^ n := one_le_pow₀ hbase
  have hok : ¬ (powFactor ≤ 0 ∨ powFactor > 1) := by
    rintro (h | h) <;> linarith
  have hscale : (0 : ℚ) < baseDifficultyFactor := by norm_num [baseDifficultyFactor]
  rw [computeDifficultyFactor, failIf_of_not _ hok, ok_bind]
  by_cases hzero : n = 0
  · rw [if_pos hzero, hzero, exactFactor]
    norm_num [baseDifficultyFactor, maxSafeDifficultyFactor]
  rw [if_neg hzero, if_neg (not_lt.mpr hn)]
  have hcommute : (baseDifficultyFactor : ℚ) * (1 + powFactor) ^ n =
      (powFactor + 1) ^ n * baseDifficultyFactor := by
    rw [mul_comm, add_comm]
  simp only [ratPowCapped_eq hbase (.inl hzero), exactFactor, hcommute]
  by_cases hfits : (powFactor + 1) ^ n ≤ (maxSafeDifficultyFactor : ℚ) / baseDifficultyFactor
  · have hexact : (powFactor + 1) ^ n * baseDifficultyFactor ≤ (maxSafeDifficultyFactor : ℚ) :=
      (le_div_iff₀ hscale).mp hfits
    set exact := (powFactor + 1) ^ n * (baseDifficultyFactor : ℚ) with hdef
    have hlow : (baseDifficultyFactor : ℚ) ≤ exact := le_mul_of_one_le_left hscale.le hpow
    have hfloorLow : (baseDifficultyFactor : ℤ) ≤ ⌊exact + 1 / 2⌋ := by
      rw [Int.le_floor]
      push_cast
      linarith
    have hfloorHigh : ⌊exact + 1 / 2⌋ < (maxSafeDifficultyFactor : ℤ) + 1 := by
      rw [Int.floor_lt]
      push_cast
      linarith
    have hmax : (maxSafeDifficultyFactor : ℤ) + 1 ≤ 2 ^ 64 := by norm_num [maxSafeDifficultyFactor]
    simp only [if_pos hfits, ← hdef, if_neg (not_lt.mpr hexact),
      roundRatToUint64_eq (hscale.trans_le hlow) (hfloorHigh.trans_le hmax)]
    rw [if_neg (by omega), if_neg (by omega), max_eq_right (by omega), min_eq_right (by omega)]
    rfl
  · have hexact : (maxSafeDifficultyFactor : ℚ) < (powFactor + 1) ^ n * baseDifficultyFactor :=
      (div_lt_iff₀ hscale).mp (not_le.mp hfits)
    have hfloor : (maxSafeDifficultyFactor : ℤ) ≤
        ⌊(powFactor + 1) ^ n * (baseDifficultyFactor : ℚ) + 1 / 2⌋ := by
      rw [Int.le_floor]
      push_cast
      linarith
    simp only [if_neg hfits]
    rw [min_eq_left (le_max_of_le_right (by omega))]
    rfl

theorem exactFactor_mono (hpos : 0 < powFactor) {m : ℕ} (hmn : m ≤ n) :
    exactFactor powFactor m ≤ exactFactor powFactor n := by
  have hbase : (1 : ℚ) ≤ 1 + powFactor := by linarith
  have hpow : (1 + powFactor) ^ m ≤ (1 + powFactor) ^ n := pow_le_pow_right₀ hbase hmn
  have hscale : (0 : ℚ) ≤ baseDifficultyFactor := Nat.cast_nonneg _
  refine min_le_min_left _ (max_le_max_left _ (Int.toNat_le_toNat (Int.floor_le_floor ?_)))
  linarith [mul_le_mul_of_nonneg_left hpow hscale]

theorem baseDifficultyFactor_le_exactFactor (powFactor : ℚ) (n : ℕ) :
    baseDifficultyFactor ≤ exactFactor powFactor n :=
  le_min (by decide) (le_max_left _ _)

/-- The target of `n` steps. -/
def exactTarget (baseBits : ℕ) (powFactor : ℚ) (n : ℕ) : ℕ :=
  2 ^ 256 / 2 ^ baseBits * baseDifficultyFactor / exactFactor powFactor n

theorem computeTarget_eq (hpos : 0 < powFactor) (hle : powFactor ≤ 1)
    (baseBits : ℕ) (hn : n ≤ maxSafeDifficultySteps) :
    computeTarget baseBits n powFactor = .ok (exactTarget baseBits powFactor n) := by
  rw [computeTarget, computeDifficultyFactor_eq hpos hle hn, ok_bind]
  rfl

/-- The factor that is returned for any number of steps: the exact one, and the largest one beyond
the steps that are computed. -/
def returnedFactor (powFactor : ℚ) (n : ℕ) : ℕ :=
  if n ≤ maxSafeDifficultySteps then exactFactor powFactor n else maxSafeDifficultyFactor

theorem computeDifficultyFactor_ok (hpos : 0 < powFactor) (hle : powFactor ≤ 1)
    (n : ℕ) : computeDifficultyFactor powFactor n = .ok (returnedFactor powFactor n) := by
  by_cases hn : n ≤ maxSafeDifficultySteps
  · rw [computeDifficultyFactor_eq hpos hle hn, returnedFactor, if_pos hn]
  · have hok : ¬ (powFactor ≤ 0 ∨ powFactor > 1) := by
      rintro (h | h) <;> linarith
    have hzero : n ≠ 0 := by
      rintro rfl
      exact hn (Nat.zero_le _)
    rw [computeDifficultyFactor, failIf_of_not _ hok, ok_bind, if_neg hzero,
      if_pos (not_le.mp hn), returnedFactor, if_neg hn]
    rfl

theorem returnedFactor_mono (hpos : 0 < powFactor) : Monotone (returnedFactor powFactor) := by
  intro m n hmn
  unfold returnedFactor
  by_cases hn : n ≤ maxSafeDifficultySteps
  · rw [if_pos (hmn.trans hn), if_pos hn]
    exact exactFactor_mono hpos hmn
  · rw [if_neg hn]
    split
    · exact min_le_left _ _
    · exact le_rfl

theorem returnedFactor_pos (powFactor : ℚ) (n : ℕ) : 0 < returnedFactor powFactor n := by
  unfold returnedFactor
  split
  · exact lt_of_lt_of_le (by decide) (baseDifficultyFactor_le_exactFactor powFactor n)
  · decide

/-- More steps never make the target easier. -/
theorem exactTarget_antitone (hpos : 0 < powFactor) (baseBits : ℕ) :
    Antitone (exactTarget baseBits powFactor) := by
  intro m n hmn
  refine Nat.div_le_div_left (exactFactor_mono hpos hmn) ?_
  exact lt_of_lt_of_le (by decide) (baseDifficultyFactor_le_exactFactor powFactor m)

/-- The factor is the exact power rounded half up and kept in range, so it never falls with the
steps and the target never rises. The capped power is exact up to the cap and reports every power
above it. -/
theorem difficulty_factor_exact :
    (∀ (p : ℚ) (n : ℕ), 0 < p → p ≤ 1 → n ≤ 10000 → computeDifficultyFactor p n =
      .ok (min (2 ^ 53 - 1) (max 1000 ⌊1000 * (1 + p) ^ n + 1 / 2⌋.toNat))) ∧
    (∀ (base cap : ℚ) (exp : ℕ), 1 ≤ base → (exp ≠ 0 ∨ 1 ≤ cap) → ratPowCapped base exp cap =
      if base ^ exp ≤ cap then some (base ^ exp) else none) ∧
    ∀ p : ℚ, 0 < p → p ≤ 1 → ∀ m n : ℕ, m ≤ n →
      (∃ f g, computeDifficultyFactor p m = .ok f ∧ computeDifficultyFactor p n = .ok g ∧ f ≤ g) ∧
      ∀ baseBits, ∃ t u, computeTarget baseBits m p = .ok t ∧ computeTarget baseBits n p = .ok u ∧
        u ≤ t := by
  refine ⟨fun p n hpos hle hn => ?_, fun base cap exp => ratPowCapped_eq, ?_⟩
  · rw [computeDifficultyFactor_eq hpos hle hn]
    rfl
  · intro p hpos hle m n hmn
    have hm := computeDifficultyFactor_ok hpos hle m
    have hn := computeDifficultyFactor_ok hpos hle n
    have hmono := returnedFactor_mono hpos hmn
    refine ⟨⟨_, _, hm, hn, hmono⟩, fun baseBits => ?_⟩
    refine ⟨_, _, by rw [computeTarget, hm]; rfl, by rw [computeTarget, hn]; rfl, ?_⟩
    exact Nat.div_le_div_left hmono (returnedFactor_pos p m)

/-- One step of one quarter, and the square of one half more than one below and above a cap. -/
theorem difficulty_factor_exact_quarter :
    computeDifficultyFactor (1 / 4) 1 =
      .ok (min (2 ^ 53 - 1) (max 1000 ⌊(1000 : ℚ) * (1 + 1 / 4) ^ 1 + 1 / 2⌋.toNat)) ∧
    (ratPowCapped (3 / 2) 2 3 =
      if ((3 / 2 : ℚ)) ^ 2 ≤ 3 then some ((3 / 2) ^ 2) else none) ∧
    ∃ f g, computeDifficultyFactor (1 / 4) 1 = .ok f ∧ computeDifficultyFactor (1 / 4) 2 = .ok g ∧
      f ≤ g :=
  ⟨difficulty_factor_exact.1 (1 / 4) 1 (by norm_num) (by norm_num) (by decide),
    difficulty_factor_exact.2.1 (3 / 2) 3 2 (by norm_num) (.inl (by decide)),
    (difficulty_factor_exact.2.2 (1 / 4) (by norm_num) (by norm_num) 1 2 (by decide)).1⟩

/-- A power with exponent 0 is returned although it is above the cap 0. -/
theorem ratPowCapped_ignores_cap_below_one : ratPowCapped 1 0 0 = some 1 ∧ (1 : ℚ) ^ 0 > 0 := by
  refine ⟨?_, by norm_num⟩
  rw [ratPowCapped, ratPowLoop, dif_pos rfl]

end MirageNode
