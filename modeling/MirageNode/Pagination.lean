import MirageNode.Curation
import MirageNode.KeySpace

/-!
# Listings by pages

`getPrefixPage` of `keeper/pagination.go`, `GetCurationTeamsPaginated` and
`GetCreatorEpochAccrualsPaginated` over the bytes of the store. The three run one loop
and differ in how a record is read: the first keeps it as it is, the second decodes it and
may skip it, the third decodes it. A page ends with the key of the first record it has not
looked at, without the prefix; following these keys from the empty one lists all that is
under the prefix once and in the order of the keys.
-/

namespace MirageNode

open ByteKeys OrderedStore OrderedMap Fallible List

namespace ByteStore

/-- A key with its value. -/
abbrev Record := List UInt8 × List UInt8

/-! ## Pages -/

/-- Below `PrefixEndBytes` of the store package. -/
def belowEnd (pre key : List UInt8) : Bool :=
  match trimmedEnd pre with
  | none => true
  | some e => decide (key < e)

/-- What `Iterator` has between `start` and the end of the prefix. -/
def iterator (store : ByteStore) (start pre : List UInt8) : List Record :=
  store.scan fun key => decide (start ≤ key) && belowEnd pre key

def pageStart (pre pageKey : List UInt8) : List UInt8 :=
  if pageKey = [] then pre else pre ++ pageKey

def pageLimit (limit maxLimit : ℕ) : ℕ :=
  if limit = 0 ∨ maxLimit < limit then maxLimit else limit

section

variable {ε α : Type}

/-- The loop: while the page has room the next record is read, and is kept unless `read`
skips it. What the iterator still has is returned with the page. -/
def fillPage (read : Record → Except ε (Option α)) (limit : ℕ) :
    List Record → List α → Except ε (List α × List Record)
  | [], out => .ok (out, [])
  | record :: rest, out =>
    if out.length < limit then do
      match ← read record with
      | none => fillPage read limit rest out
      | some a => fillPage read limit rest (out ++ [a])
    else .ok (out, record :: rest)

/-- The empty key stands for none. -/
def nextKey (pre : List UInt8) : List Record → List UInt8
  | [] => []
  | (key, _) :: _ => key.drop pre.length

def readPage (read : Record → Except ε (Option α)) (maxLimit : ℕ) (store : ByteStore)
    (pre pageKey : List UInt8) (limit : ℕ) : Except ε (List α × List UInt8) := do
  let (out, rest) ←
    fillPage read (pageLimit limit maxLimit) (iterator store (pageStart pre pageKey) pre) []
  return (out, nextKey pre rest)

def getPrefixPage (store : ByteStore) (pre pageKey : List UInt8) (limit maxLimit : ℕ) :
    Except ε (List Record × List UInt8) :=
  readPage (fun record => .ok (some record)) maxLimit store pre pageKey limit

variable (unmarshalTeam : List UInt8 → Except ε CurationTeam)
variable (unmarshalAccrual : List UInt8 → Except ε CreatorAccrual)

def getCurationTeamsPaginated (store : ByteStore) (pre pageKey : List UInt8) (limit : ℕ)
    (includeDeleted : Bool) : Except ε (List CurationTeam × List UInt8) :=
  readPage (fun record => do
    let team ← unmarshalTeam record.2
    if !includeDeleted && !team.live then return none
    return some team) 100 store pre pageKey limit

def maxCreatorAccrualQueryLimit : ℕ := 1000

def keyEpochCreatorAccrualPrefix (n m : ℕ) (epoch : Int64) : KeyPrefix n m :=
  ⟨.epochCreatorAccrual, .cons epoch .nil⟩

def getCreatorEpochAccrualsPaginated (n m : ℕ) (store : ByteStore) (epoch : Int64)
    (pageKey : List UInt8) (limit : ℕ) : Except ε (List CreatorAccrual × List UInt8) :=
  readPage (fun record => some <$> unmarshalAccrual record.2) maxCreatorAccrualQueryLimit store
    (keyEpochCreatorAccrualPrefix n m epoch).bytes pageKey limit

end

/-! ## What the iterator visits -/

/-- All records whose key starts with the prefix, in the order of the keys. -/
def recordsUnder (store : ByteStore) (pre : List UInt8) : List Record :=
  store.scan fun key => pre.isPrefixOf key

theorem belowEnd_iff {pre key : List UInt8} :
    belowEnd pre key = true ↔ ∀ e, trimmedEnd pre = some e → key < e := by
  rw [belowEnd]
  cases trimmedEnd pre <;> simp

theorem le_and_belowEnd (pre key : List UInt8) :
    (decide (pre ≤ key) && belowEnd pre key) = pre.isPrefixOf key := by
  rw [Bool.eq_iff_iff, Bool.and_eq_true, decide_eq_true_eq, belowEnd_iff,
    isPrefixOf_iff_prefix, isPrefix_iff_trimmedEnd]

theorem iterator_prefix (store : ByteStore) (pre : List UInt8) :
    iterator store pre pre = recordsUnder store pre := by
  simp only [iterator, recordsUnder, le_and_belowEnd]

theorem le_pageStart (pre pageKey : List UInt8) : pre ≤ pageStart pre pageKey := by
  unfold pageStart
  split
  · exact le_rfl
  · have h := append_le_append_iff (l := pre).mpr (nil_le pageKey)
    rwa [append_nil] at h

theorem isPrefix_of_mem_iterator {store : ByteStore} {pre pageKey : List UInt8} {record : Record}
    (h : record ∈ iterator store (pageStart pre pageKey) pre) : pre <+: record.1 := by
  obtain ⟨-, hkey⟩ := mem_scan.mp h
  rw [Bool.and_eq_true, decide_eq_true_eq, belowEnd_iff] at hkey
  exact isPrefix_iff_trimmedEnd.mpr ⟨(le_pageStart pre pageKey).trans hkey.1, hkey.2⟩

theorem mem_recordsUnder_of_mem_iterator {store : ByteStore} {pre pageKey : List UInt8}
    {record : Record} (h : record ∈ iterator store (pageStart pre pageKey) pre) :
    record ∈ recordsUnder store pre := by
  refine mem_scan.mpr ⟨(mem_scan.mp h).1, ?_⟩
  exact isPrefixOf_iff_prefix.mpr (isPrefix_of_mem_iterator h)

/-- The key behind the records of a page is not empty, and the next page starts with the
first record that is left. The prefix itself may be a key, but it is then the first one of
all, so it is never what a page leaves. -/
theorem iterator_nextKey {store : ByteStore} {pre pageKey : List UInt8} {first last : Record}
    {seen rest : List Record}
    (h : iterator store (pageStart pre pageKey) pre = first :: seen ++ last :: rest) :
    nextKey pre (last :: rest) ≠ [] ∧
      iterator store (pageStart pre (nextKey pre (last :: rest))) pre = last :: rest := by
  have hmem : ∀ record ∈ first :: seen ++ last :: rest, pre <+: record.1 := by
    intro record hrecord
    rw [← h] at hrecord
    exact isPrefix_of_mem_iterator hrecord
  obtain ⟨tail, htail⟩ := hmem last (by simp)
  have hfirst : pre ≤ first.1 := (isPrefix_iff_trimmedEnd.mp (hmem first (by simp))).1
  have hsorted : (first :: seen ++ last :: rest).Pairwise (fun a b => a.1 < b.1) := by
    rw [← h]
    exact store.sorted.filter _
  have hlt : first.1 < last.1 := rel_of_pairwise_cons hsorted (by simp)
  have hnext : nextKey pre (last :: rest) = tail := by
    rw [nextKey, ← htail, drop_left]
  have hne : tail ≠ [] := by
    rintro rfl
    rw [append_nil] at htail
    exact absurd (hfirst.trans_lt hlt) (htail ▸ lt_irrefl _)
  rw [hnext, pageStart, if_neg hne, htail]
  refine ⟨hne, scan_from h fun key => ?_⟩
  have hstart : pageStart pre pageKey ≤ last.1 := by
    have hlast : last ∈ iterator store (pageStart pre pageKey) pre := by
      rw [h]
      simp
    have hkey := (mem_scan.mp hlast).2
    rw [Bool.and_eq_true, decide_eq_true_eq] at hkey
    exact hkey.1
  rw [Bool.eq_iff_iff]
  simp only [Bool.and_eq_true, decide_eq_true_eq]
  constructor
  · rintro ⟨hle, hend⟩
    exact ⟨⟨hstart.trans hle, hend⟩, hle⟩
  · rintro ⟨⟨-, hend⟩, hle⟩
    exact ⟨hle, hend⟩

/-! ## Following the pages -/

section

variable {ε α : Type}

/-- Pages asked for one after another, each from the next key of the one before, the
`i`-th with the limit `limits i`, until there is no next key. -/
inductive Follows (page : List UInt8 → ℕ → Except ε (List α × List UInt8)) (limits : ℕ → ℕ) :
    ℕ → List UInt8 → List (List α) → Prop
  | last {i : ℕ} {cursor : List UInt8} {out : List α} (h : page cursor (limits i) = .ok (out, [])) :
      Follows page limits i cursor [out]
  | more {i : ℕ} {cursor next : List UInt8} {out : List α} {pages : List (List α)}
      (h : page cursor (limits i) = .ok (out, next)) (hnext : next ≠ [])
      (hrest : Follows page limits (i + 1) next pages) : Follows page limits i cursor (out :: pages)

/-- Following the pages from the empty cursor comes to an end, returns `all` and nothing
else, and no page is longer than its limit. -/
def Lists (page : List UInt8 → ℕ → Except ε (List α × List UInt8)) (limits : ℕ → ℕ)
    (all : List α) : Prop :=
  ∃ pages, Follows page limits 0 [] pages ∧ pages.flatten = all ∧
    ∀ i out, pages[i]? = some out → out.length ≤ limits i

variable {read : Record → Except ε (Option α)} {found : Record → Option α}

theorem fillPage_spec (limit : ℕ) {records : List Record} (out : List α)
    (hread : ∀ record ∈ records, read record = .ok (found record)) (hout : out.length ≤ limit) :
    ∃ seen rest, records = seen ++ rest ∧
      fillPage read limit records out = .ok (out ++ seen.filterMap found, rest) ∧
      (out ++ seen.filterMap found).length ≤ limit ∧
      (rest ≠ [] → (out ++ seen.filterMap found).length = limit) := by
  induction records generalizing out with
  | nil => exact ⟨[], [], rfl, by simp [fillPage], by simpa using hout, fun h => absurd rfl h⟩
  | cons record records ih =>
    by_cases hroom : out.length < limit
    · have hrecord := hread record mem_cons_self
      have hread := fun r hr => hread r (mem_cons_of_mem _ hr)
      cases hfound : found record with
      | none =>
        obtain ⟨seen, rest, rfl, hfill, hle, hfull⟩ := ih out hread hout
        refine ⟨record :: seen, rest, rfl, ?_⟩
        rw [filterMap_cons_none hfound]
        refine ⟨?_, hle, hfull⟩
        rw [fillPage, if_pos hroom, hrecord, hfound]
        exact hfill
      | some a =>
        obtain ⟨seen, rest, rfl, hfill, hle, hfull⟩ := ih (out ++ [a]) hread (by simpa)
        rw [append_assoc, singleton_append] at hfill hle hfull
        refine ⟨record :: seen, rest, rfl, ?_⟩
        rw [filterMap_cons_some hfound]
        refine ⟨?_, hle, hfull⟩
        rw [fillPage, if_pos hroom, hrecord, hfound]
        exact hfill
    · refine ⟨[], record :: records, rfl, ?_, by simpa using hout, fun _ => ?_⟩
      · rw [fillPage, if_neg hroom, filterMap_nil, append_nil]
      · simpa using le_antisymm hout (not_lt.mp hroom)

theorem pageLimit_pos {limit maxLimit : ℕ} (hlimit : 0 < limit) (hmax : 0 < maxLimit) :
    0 < pageLimit limit maxLimit := by
  unfold pageLimit
  split <;> assumption

theorem pageLimit_le {limit maxLimit : ℕ} (hlimit : 0 < limit) :
    pageLimit limit maxLimit ≤ limit := by
  unfold pageLimit
  split
  next h => exact (h.resolve_left hlimit.ne').le
  next => exact le_rfl

variable {store : ByteStore} {pre : List UInt8} {maxLimit : ℕ}

/-- One page: a front part of what the iterator has is read, and is all of it if there is
no next key; with one, something was read, and the next page starts where this one ended. -/
theorem readPage_spec (pageKey : List UInt8) {limit : ℕ} (hmax : 0 < maxLimit) (hlimit : 0 < limit)
    (hread : ∀ record ∈ recordsUnder store pre, read record = .ok (found record)) :
    ∃ seen rest next, iterator store (pageStart pre pageKey) pre = seen ++ rest ∧
      readPage read maxLimit store pre pageKey limit = .ok (seen.filterMap found, next) ∧
      (seen.filterMap found).length ≤ limit ∧
      (next = [] ∧ rest = [] ∨
        next ≠ [] ∧ seen ≠ [] ∧ iterator store (pageStart pre next) pre = rest) := by
  have hpos := pageLimit_pos hlimit hmax
  have hvisited : ∀ record ∈ iterator store (pageStart pre pageKey) pre,
      read record = .ok (found record) :=
    fun record hrecord => hread record (mem_recordsUnder_of_mem_iterator hrecord)
  obtain ⟨seen, rest, hsplit, hfill, hle, hfull⟩ :=
    fillPage_spec (pageLimit limit maxLimit) [] hvisited (Nat.zero_le _)
  rw [nil_append] at hfill hle hfull
  refine ⟨seen, rest, nextKey pre rest, hsplit, ?_, hle.trans (pageLimit_le hlimit), ?_⟩
  · rw [readPage, hfill]
    rfl
  · cases rest with
    | nil => exact .inl ⟨rfl, rfl⟩
    | cons last rest =>
      cases seen with
      | nil => exact absurd (hfull (cons_ne_nil _ _)) hpos.ne
      | cons first seen =>
        obtain ⟨hne, hnext⟩ := iterator_nextKey hsplit
        exact .inr ⟨hne, cons_ne_nil _ _, hnext⟩

/-- From any cursor on. The induction is on what the iterator has left. -/
theorem follows_readPage {limits : ℕ → ℕ} (hmax : 0 < maxLimit) (hlimits : ∀ i, 0 < limits i)
    (hread : ∀ record ∈ recordsUnder store pre, read record = .ok (found record)) (i : ℕ)
    (cursor : List UInt8) :
    ∃ pages, Follows (readPage read maxLimit store pre) limits i cursor pages ∧
      pages.flatten = (iterator store (pageStart pre cursor) pre).filterMap found ∧
      ∀ j out, pages[j]? = some out → out.length ≤ limits (i + j) := by
  induction hleft : (iterator store (pageStart pre cursor) pre).length using Nat.strong_induction_on
    generalizing i cursor with
  | _ left ih =>
    obtain ⟨seen, rest, next, hsplit, hpage, hle, hcases⟩ :=
      readPage_spec cursor hmax (hlimits i) hread
    obtain ⟨rfl, rfl⟩ | ⟨hne, hseen, hnext⟩ := hcases
    · refine ⟨[seen.filterMap found], .last hpage, ?_, ?_⟩
      · rw [hsplit, append_nil, flatten_singleton]
      · intro j out hout
        obtain ⟨rfl, rfl⟩ : j = 0 ∧ seen.filterMap found = out := by
          cases j with
          | zero => exact ⟨rfl, Option.some.inj hout⟩
          | succ j => cases hout
        exact hle
    · have hshorter : rest.length < left := by
        rw [← hleft, hsplit, length_append]
        have := length_pos_of_ne_nil hseen
        omega
      obtain ⟨pages, hfollows, hflat, hlengths⟩ :=
        ih _ hshorter (i + 1) next (congrArg List.length hnext)
      refine ⟨seen.filterMap found :: pages, .more hpage hne hfollows, ?_, ?_⟩
      · rw [flatten_cons, hflat, hnext, hsplit, filterMap_append]
      · intro j out hout
        cases j with
        | zero => exact Option.some.inj hout ▸ hle
        | succ j =>
          rw [← Nat.add_assoc, Nat.add_right_comm]
          exact hlengths j out hout

theorem lists_readPage {limits : ℕ → ℕ} (hmax : 0 < maxLimit) (hlimits : ∀ i, 0 < limits i)
    (hread : ∀ record ∈ recordsUnder store pre, read record = .ok (found record)) :
    Lists (readPage read maxLimit store pre) limits ((recordsUnder store pre).filterMap found) := by
  obtain ⟨pages, hfollows, hflat, hlengths⟩ := follows_readPage hmax hlimits hread 0 []
  refine ⟨pages, hfollows, ?_, fun i out hout => ?_⟩
  · rw [hflat, pageStart, if_pos rfl, iterator_prefix]
  · simpa using hlengths i out hout

theorem filterMap_of_forall₂ {β : Type} {records : List Record} {values : List β}
    {keep : β → Option α}
    (h : List.Forall₂ (fun record value => found record = keep value) records values) :
    records.filterMap found = values.filterMap keep := by
  induction h with
  | nil => rfl
  | cons hfound _ ih => rw [filterMap_cons, filterMap_cons, hfound, ih]

/-- A listing that decodes each record and keeps some of what it decodes. -/
theorem lists_decoded {β : Type} {decode : List UInt8 → Except ε β} {keep : β → Option α}
    {values : List β} {limits : ℕ → ℕ} (hmax : 0 < maxLimit) (hlimits : ∀ i, 0 < limits i)
    (hread : ∀ record value, decode record.2 = .ok value → read record = .ok (keep value))
    (hvalues : (recordsUnder store pre).mapM (fun record => decode record.2) = .ok values) :
    Lists (readPage read maxLimit store pre) limits (values.filterMap keep) := by
  have hfound : ∀ (record : Record) value, decode record.2 = .ok value →
      (decode record.2).toOption.bind keep = keep value := by
    intro record value hvalue
    rw [hvalue]
    rfl
  rw [← filterMap_of_forall₂ ((mapM_eq_ok hvalues).imp hfound)]
  refine lists_readPage hmax hlimits fun record hrecord => ?_
  obtain ⟨value, hvalue⟩ := mapM_ok_of_mem hvalues hrecord
  rw [hfound record value hvalue]
  exact hread record value hvalue

end

/-- For any contents of the store and any positive limits, a listing by pages visits every
record under its prefix once, in the order of the keys. The team listing leaves out the
deleted teams and nothing else. -/
theorem listings_complete {ε : Type} (unmarshalTeam : List UInt8 → Except ε CurationTeam)
    (unmarshalAccrual : List UInt8 → Except ε CreatorAccrual) (n m : ℕ) (store : ByteStore)
    (limits : ℕ → ℕ) (hlimits : ∀ i, 0 < limits i) :
    (∀ pre maxLimit, 0 < maxLimit →
      Lists (fun pageKey limit => getPrefixPage (ε := ε) store pre pageKey limit maxLimit) limits
        (recordsUnder store pre)) ∧
    (∀ pre includeDeleted teams,
      (recordsUnder store pre).mapM (fun record => unmarshalTeam record.2) = .ok teams →
      Lists (fun pageKey limit =>
          getCurationTeamsPaginated unmarshalTeam store pre pageKey limit includeDeleted) limits
        (if includeDeleted then teams else teams.filter CurationTeam.live)) ∧
    (∀ epoch accruals,
      (recordsUnder store (keyEpochCreatorAccrualPrefix n m epoch).bytes).mapM
        (fun record => unmarshalAccrual record.2) = .ok accruals →
      Lists (getCreatorEpochAccrualsPaginated unmarshalAccrual n m store epoch) limits
        accruals) := by
  refine ⟨fun pre maxLimit hmax => ?_, fun pre includeDeleted teams hteams => ?_,
    fun epoch accruals haccruals => ?_⟩
  · have hlists : Lists
        (fun pageKey limit => getPrefixPage (ε := ε) store pre pageKey limit maxLimit) limits
        ((recordsUnder store pre).filterMap some) :=
      lists_readPage hmax hlimits fun _ _ => rfl
    rwa [filterMap_some] at hlists
  · have hkept : teams.filterMap
        (fun team => if !includeDeleted && !team.live then none else some team) =
        if includeDeleted then teams else teams.filter CurationTeam.live := by
      cases includeDeleted with
      | true => simp
      | false =>
        rw [if_neg Bool.false_ne_true, ← filterMap_eq_filter]
        congr 1
        funext team
        cases hlive : team.live <;> simp [Option.guard, hlive]
    rw [← hkept]
    refine lists_decoded (by decide) hlimits (fun record team hteam => ?_) hteams
    rw [hteam, ok_bind]
    split <;> rfl
  · rw [← filterMap_some (l := accruals)]
    refine lists_decoded (by decide) hlimits (fun record accrual haccrual => ?_) haccruals
    rw [haccrual]
    rfl

/-- A team whose record is its id and the height at which it was deleted. -/
def twoByteTeam : List UInt8 → Except String CurationTeam
  | [teamId, deletedHeight] =>
    .ok ⟨0, teamId.toNat, 0, 0, 0, 0, 0, 0, 0, deletedHeight.toNat, 0, false⟩
  | _ => .error "proto: unexpected EOF"

def threeTeams : ByteStore :=
  ((OrderedMap.empty.set [7, 3] [3, 0]).set [7, 1] [1, 0]).set [7, 2] [2, 9]

theorem listings_complete_threeTeams :
    Lists (fun pageKey limit =>
        getCurationTeamsPaginated twoByteTeam threeTeams [7] pageKey limit false) (fun _ => 1)
      [⟨0, 1, 0, 0, 0, 0, 0, 0, 0, 0, 0, false⟩, ⟨0, 3, 0, 0, 0, 0, 0, 0, 0, 0, 0, false⟩] := by
  have hlists := listings_complete twoByteTeam (fun _ => .error "") 0 0 threeTeams (fun _ => 1)
    fun _ => Nat.one_pos
  exact hlists.2.1 [7] false
    [⟨0, 1, 0, 0, 0, 0, 0, 0, 0, 0, 0, false⟩, ⟨0, 2, 0, 0, 0, 0, 0, 0, 0, 9, 0, false⟩,
      ⟨0, 3, 0, 0, 0, 0, 0, 0, 0, 0, 0, false⟩] (by decide)

end ByteStore

end MirageNode
