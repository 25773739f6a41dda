import MirageNode.Curation
import MirageNode.Lib.WindowLog

/-!
# Thread locks from the chain to the reader

The chain keeps the cut-off of a lock that is open and forgets it on unlock. The indexer
rebuilds the history of a thread from the events, as one row of `curation_locks`, and the
backend reads that row to decide whether a reply was written while the thread was locked.

The three agree (`thread_locks_end_to_end`): the row of a thread is the log of a switch
(`WindowLog`), whose counter is the global post sequence. The event of each call is one entry
of that log (`row_of_call`).
-/

namespace MirageNode

open OrderedStore OrderedMap Fallible WindowLog

/-! ## 1. The event -/

/-- The key of what a team keeps about a thread. -/
abbrev ThreadKey := Slug ×ₗ ℕ ×ₗ Hash

/-- The components of `KeyThreadLock` and of the key of `curation_locks`. -/
def threadKey (slug : Slug) (team : ℕ) (root : Hash) : ThreadKey := toLex (slug, toLex (team, root))

/-- `curation_thread_locked`. -/
structure ThreadLockedEvent where
  community : Slug
  teamId : ℕ
  target : Hash
  locked : Bool
  lockSequence : ℕ
  unlockSequence : ℕ
  actor : Addr
deriving DecidableEq, Repr

/-- Both ends of the window that an event of `SetCurationThreadLocked` describes, from the
stored cut-off; an end of 0 is still open. -/
def lockEnds (postSeq : ℕ) (locked : Bool) (stored : Option ℕ) : ℕ × ℕ :=
  match locked, stored with
  -- locking again does not move the cut-off
  | true, some at_ => (at_, 0)
  | true, none => (postSeq, 0)
  | false, some at_ => (at_, postSeq)
  | false, none => (0, 0)

/-- The event of `SetCurationThreadLocked`, from the store before the call. -/
def threadLockedEvent (postSeq : ℕ) (c : CurationState) (slug : Slug) (team : ℕ) (root : Hash)
    (actor : Addr) (locked : Bool) : ThreadLockedEvent :=
  let ends := lockEnds postSeq locked (c.threadLocks.get (threadKey slug team root))
  ⟨slug, team, root, locked, ends.1, ends.2, actor⟩

/-! ## 2. The indexer's row -/

/-- A row of `curation_locks`. -/
structure LockRow where
  lockSequence : Option ℕ
  lockWindows : List (ℕ × ℕ)
  actor : Addr
  updatedHeight : ℤ
deriving DecidableEq, Repr

/-- `INSERT … ON CONFLICT DO UPDATE` of a row. -/
def upsert (rows : OrderedMap ThreadKey LockRow) (key : ThreadKey) (new : LockRow)
    (update : LockRow → LockRow) : OrderedMap ThreadKey LockRow :=
  rows.set key ((rows.get key).elim new update)

/-- `UPDATE` of a row, if there is one. -/
def updateRow (rows : OrderedMap ThreadKey LockRow) (key : ThreadKey)
    (update : LockRow → LockRow) : OrderedMap ThreadKey LockRow :=
  match rows.get key with
  | none => rows
  | some row => rows.set key (update row)

/-- `DELETE` of an unlocked row without windows. -/
def deleteEmptyRow (rows : OrderedMap ThreadKey LockRow) (key : ThreadKey) :
    OrderedMap ThreadKey LockRow :=
  match rows.get key with
  | none => rows
  | some row => if row.lockSequence = none ∧ row.lockWindows = [] then rows.erase key else rows

/-- The projection of `curation_thread_locked` in the indexer. -/
def projectThreadLocked (height : ℤ) (rows : OrderedMap ThreadKey LockRow)
    (e : ThreadLockedEvent) : OrderedMap ThreadKey LockRow :=
  let key := threadKey e.community e.teamId e.target
  if e.locked then
    -- the closed windows survive a new lock
    upsert rows key ⟨some e.lockSequence, [], e.actor, height⟩ fun row =>
      { row with lockSequence := some e.lockSequence, actor := e.actor, updatedHeight := height }
  else
    let window := [(e.lockSequence, e.unlockSequence)]
    let rows :=
      if e.unlockSequence > e.lockSequence then
        upsert rows key ⟨none, window, e.actor, height⟩ fun row =>
          ⟨none, row.lockWindows ++ window, e.actor, height⟩
      else
        updateRow rows key fun row =>
          { row with lockSequence := none, actor := e.actor, updatedHeight := height }
    deleteEmptyRow rows key

/-! ## 3. The backend's reading -/

/-- `_lock_windows` of a row, or of the two `None`s that stand for a missing one. -/
def lockWindows (row : Option LockRow) : List (ℕ × Option ℕ) :=
  match row with
  | none => []
  | some row =>
    row.lockWindows.map (fun w => (w.1, some w.2)) ++
      match row.lockSequence with
      | none => []
      | some start => [(start, none)]

def insideLockWindow (postSequence : ℕ) (windows : List (ℕ × Option ℕ)) : Bool :=
  windows.any fun w => postSequence > w.1 &&
    match w.2 with
    | none => true
    | some stop => postSequence ≤ stop

/-! ## 4. The row as a log -/

/-- What a row, or no row, logs. -/
def logOf (row : Option LockRow) : Log ℕ :=
  row.elim .empty fun row => ⟨row.lockWindows, row.lockSequence⟩

theorem lockWindows_eq (row : Option LockRow) : lockWindows row = (logOf row).windows := by
  rcases row with _ | ⟨_ | start, windows, actor, height⟩ <;> rfl

theorem insideLockWindow_iff {n : ℕ} {row : Option LockRow} :
    insideLockWindow n (lockWindows row) = true ↔ (logOf row).Covers n := by
  rw [lockWindows_eq, Log.covers_iff_windows, insideLockWindow, List.any_eq_true]
  refine exists_congr fun w => and_congr_right fun _ => ?_
  rcases w with ⟨start, _ | stop⟩ <;> simp

@[simp] theorem logOf_upsert (rows : OrderedMap ThreadKey LockRow) (key : ThreadKey)
    (new : LockRow) (update : LockRow → LockRow) :
    logOf ((upsert rows key new update).get key) =
      logOf (some ((rows.get key).elim new update)) := by
  rw [upsert, get_set_self]

@[simp] theorem logOf_updateRow (rows : OrderedMap ThreadKey LockRow) (key : ThreadKey)
    (update : LockRow → LockRow) :
    logOf ((updateRow rows key update).get key) = logOf ((rows.get key).map update) := by
  unfold updateRow
  cases hrow : rows.get key with
  | none => rw [hrow]; rfl
  | some row => rw [get_set_self]; rfl

/-- A row that is deleted has logged nothing. -/
@[simp] theorem logOf_deleteEmptyRow (rows : OrderedMap ThreadKey LockRow) (key : ThreadKey) :
    logOf ((deleteEmptyRow rows key).get key) = logOf (rows.get key) := by
  unfold deleteEmptyRow
  cases hrow : rows.get key with
  | none => rw [hrow]
  | some row =>
    simp only
    split
    · next hempty =>
      rw [get_erase_self]
      simp only [logOf, Option.elim_none, Option.elim_some, hempty, Log.empty]
    · rw [hrow]

variable {e : ThreadLockedEvent}

/-- A lock event opens a window where the event says. -/
theorem logOf_project_lock (height : ℤ) (rows : OrderedMap ThreadKey LockRow)
    (h : e.locked = true) : let key := threadKey e.community e.teamId e.target
    logOf ((projectThreadLocked height rows e).get key) =
      { logOf (rows.get key) with opened := some e.lockSequence } := by
  intro key
  simp only [projectThreadLocked, h, if_true]
  rw [logOf_upsert]
  cases rows.get key <;> rfl

/-- An unlock event closes the window, and logs it if something was posted in it. -/
theorem logOf_project_unlock (height : ℤ) (rows : OrderedMap ThreadKey LockRow)
    (h : e.locked = false) : let key := threadKey e.community e.teamId e.target
    let closed := (logOf (rows.get key)).closed
    logOf ((projectThreadLocked height rows e).get key) =
      ⟨if e.lockSequence < e.unlockSequence then
        closed ++ [(e.lockSequence, e.unlockSequence)] else closed, none⟩ := by
  intro key closed
  simp only [projectThreadLocked, h, Bool.false_eq_true, if_false, gt_iff_lt]
  rw [logOf_deleteEmptyRow]
  by_cases hlt : e.lockSequence < e.unlockSequence
  · simp only [if_pos hlt]
    rw [logOf_upsert]
    simp only [closed]
    cases rows.get key <;> rfl
  · simp only [if_neg hlt]
    rw [logOf_updateRow]
    simp only [closed]
    cases rows.get key <;> rfl

theorem get_project_of_ne (height : ℤ) (rows : OrderedMap ThreadKey LockRow)
    {key : ThreadKey} (hne : key ≠ threadKey e.community e.teamId e.target) :
    (projectThreadLocked height rows e).get key = rows.get key := by
  have hupsert : ∀ new update,
      (upsert rows (threadKey e.community e.teamId e.target) new update).get key = rows.get key :=
    fun _ _ => get_set_of_ne _ hne
  have hupdate : ∀ update, (updateRow rows (threadKey e.community e.teamId e.target) update).get
      key = rows.get key := by
    intro update
    unfold updateRow
    split
    · rfl
    · exact get_set_of_ne _ hne
  have hdelete : ∀ rows : OrderedMap ThreadKey LockRow,
      (deleteEmptyRow rows (threadKey e.community e.teamId e.target)).get key = rows.get key := by
    intro rows
    unfold deleteEmptyRow
    split
    · rfl
    · split
      · exact get_erase_of_ne hne
      · rfl
  unfold projectThreadLocked
  simp only
  split
  · exact hupsert _ _
  · rw [hdelete]
    split
    · exact hupsert _ _
    · exact hupdate _

/-! ## 5. Chain and indexer together -/

/-- The chain's locks and post sequence, the indexer's table, and for each post its sequence
and the chain's locks when it was assigned. -/
structure LockSystem where
  curation : CurationState
  postSeq : ℕ
  rows : OrderedMap ThreadKey LockRow
  posts : List (ℕ × CurationState)

/-- A post, or a call of `SetCurationThreadLocked` in a block. -/
inductive LockStep where
  | post
  | setLocked (slug : Slug) (team : ℕ) (root : Hash) (actor : Addr) (height : ℤ) (locked : Bool)

namespace LockSystem

/-- A store of the chain, and an indexer that has seen no lock. -/
def start (c : CurationState) (postSeq : ℕ) : LockSystem := ⟨c, postSeq, .empty, []⟩

/-- `NextPostSequence`, or a lock call whose event the indexer processes. What fails changes
nothing. -/
def step (s : LockSystem) : LockStep → LockSystem
  | .post =>
    match checkedAddUint64 s.postSeq 1 with
    | .error _ => s
    | .ok next => { s with postSeq := next, posts := (next, s.curation) :: s.posts }
  | .setLocked slug team root actor height locked =>
    match setCurationThreadLocked s.postSeq s.curation slug team root locked with
    | .error _ => s
    | .ok c => { s with
        curation := c
        rows := projectThreadLocked height s.rows
          (threadLockedEvent s.postSeq s.curation slug team root actor locked) }

/-- Runs steps in order. -/
def run (s : LockSystem) (steps : List LockStep) : LockSystem := steps.foldl step s

/-- The chain has the thread locked. -/
def locked (s : LockSystem) (key : ThreadKey) : Bool := s.curation.threadLocks.has key

/-- The windows of the thread as the backend reads them. -/
def windows (s : LockSystem) (key : ThreadKey) : List (ℕ × Option ℕ) := lockWindows (s.rows.get key)

/-- How many of the steps lock the thread while it is unlocked. -/
def opened (key : ThreadKey) : LockSystem → List LockStep → ℕ
  | _, [] => 0
  | s, st :: steps =>
    (if s.locked key = false ∧ (s.step st).locked key = true then 1 else 0) +
      opened key (s.step st) steps

/-- What is logged about a thread. -/
def log (s : LockSystem) (key : ThreadKey) : Log ℕ := logOf (s.rows.get key)

/-- What holds between the store, the row and the posts of a thread, where the posts up to
`first` were written before. -/
structure Tracked (key : ThreadKey) (first : ℕ) (s : LockSystem) : Prop where
  upto : (s.log key).Upto s.postSeq
  opened : (s.log key).opened = s.curation.threadLocks.get key
  posts : ∀ p ∈ s.posts, p.1 ≤ s.postSeq ∧
    ((s.log key).Covers p.1 ↔ p.2.threadLocks.has key = true)
  first_le : first ≤ s.postSeq
  earlier : ∀ n ≤ first, ¬ (s.log key).Covers n

variable {key : ThreadKey} {first : ℕ} {s : LockSystem}

variable {c : CurationState}

theorem tracked_start (postSeq : ℕ) (hfree : c.threadLocks.get key = none) :
    (start c postSeq).Tracked key postSeq where
  upto := Log.upto_empty postSeq
  opened := hfree.symm
  posts := nofun
  first_le := le_rfl
  earlier := fun n _ => Log.not_covers_empty n

/-- A new entry of the log that agrees with it on the past. -/
theorem Tracked.entry {rows : OrderedMap ThreadKey LockRow}
    (h : s.Tracked key first) (hupto : (logOf (rows.get key)).Upto s.postSeq)
    (hopened : (logOf (rows.get key)).opened = c.threadLocks.get key)
    (hpast : ∀ n ≤ s.postSeq, (logOf (rows.get key)).Covers n ↔ (s.log key).Covers n) :
    Tracked key first { s with curation := c, rows := rows } where
  upto := hupto
  opened := hopened
  posts := fun p hp => ⟨(h.posts p hp).1, (hpast p.1 (h.posts p hp).1).trans (h.posts p hp).2⟩
  first_le := h.first_le
  earlier := fun n hn hcovers => h.earlier n hn ((hpast n (hn.trans h.first_le)).mp hcovers)

/-- The event of a call is an entry of the thread's log. -/
theorem row_of_call {rows : OrderedMap ThreadKey LockRow} {slug : Slug} {team : ℕ} {root : Hash}
    (postSeq : ℕ) (actor : Addr) (height : ℤ) (locked : Bool)
    (hopened : (logOf (rows.get (threadKey slug team root))).opened =
      c.threadLocks.get (threadKey slug team root)) :
    logOf ((projectThreadLocked height rows
      (threadLockedEvent postSeq c slug team root actor locked)).get (threadKey slug team root)) =
        if locked then (logOf (rows.get (threadKey slug team root))).start postSeq
        else (logOf (rows.get (threadKey slug team root))).stop postSeq := by
  cases locked with
  | true =>
    refine (logOf_project_lock height rows rfl).trans ?_
    rw [if_pos rfl, Log.start, hopened]
    simp only [threadLockedEvent, lockEnds]
    cases c.threadLocks.get (threadKey slug team root) <;> rfl
  | false =>
    refine (logOf_project_unlock height rows rfl).trans ?_
    rw [if_neg Bool.false_ne_true, Log.stop, hopened]
    cases hstored : c.threadLocks.get (threadKey slug team root) with
    | some at_ => simp only [threadLockedEvent, lockEnds, hstored]
    | none =>
      -- the event of an unlock without a lock is the empty window from 0 to 0
      simp only [threadLockedEvent, lockEnds, hstored, lt_irrefl, if_false]
      rw [← hstored, ← hopened]

/-- A call locks or unlocks its thread; only a lock of an unlocked thread is counted, and the
count is limited. -/
theorem setCurationThreadLocked_eq_ok {c' : CurationState} {slug : Slug} {team postSeq : ℕ}
    {root : Hash} {locked : Bool}
    (h : setCurationThreadLocked postSeq c slug team root locked = .ok c') :
    let key := threadKey slug team root
    c'.threadLocks.get key =
        (if locked then some ((c.threadLocks.get key).getD postSeq) else none) ∧
      c'.threadLockCount.count key = c.threadLockCount.count key +
        (if c.threadLocks.has key = false ∧ locked = true then 1 else 0) ∧
      (c.threadLocks.has key = false ∧ locked = true →
        c.threadLockCount.count key < maxThreadLockWindows) ∧
      ∀ key', key' ≠ key → c'.threadLocks.get key' = c.threadLocks.get key' ∧
        c'.threadLockCount.count key' = c.threadLockCount.count key' := by
  intro key
  have hkey : toLex (slug, toLex (team, root)) = key := rfl
  simp only [setCurationThreadLocked, hkey] at h
  split at h
  next hhas =>
    obtain ⟨at_, hat⟩ := has_iff.mp hhas
    obtain rfl := Except.ok.inj h
    simp [hat, hhas]
  next hhas =>
    simp only [bind_eq_ok, failIf_eq_ok, exists_const, pure_eq_ok, ge_iff_le, not_le] at h
    obtain ⟨hroom, rfl⟩ := h
    refine ⟨?_, ?_, fun _ => hroom, fun key' hne => ?_⟩
    · rw [if_pos rfl, has_eq_false_iff.mp hhas]
      exact get_set_self _ _ _
    · rw [if_pos ⟨hhas, rfl⟩, count_set, if_pos rfl]
    · exact ⟨get_set_of_ne _ hne, (count_set _ _ _ _).trans (if_neg hne)⟩
  next =>
    obtain rfl := Except.ok.inj h
    refine ⟨get_erase_self _ _, by simp, by simp, fun key' hne => ?_⟩
    exact ⟨get_erase_of_ne hne, rfl⟩
  next hhas =>
    obtain rfl := Except.ok.inj h
    exact ⟨has_eq_false_iff.mp hhas, by simp, by simp, fun _ _ => ⟨rfl, rfl⟩⟩

/-! ## 6. Runs -/

theorem step_post (s : LockSystem) : s.step .post = s ∨ s.step .post =
    { s with postSeq := s.postSeq + 1, posts := (s.postSeq + 1, s.curation) :: s.posts } := by
  simp only [step]
  split
  · exact .inl rfl
  · next next hnext =>
    obtain ⟨-, rfl⟩ := checkedAddUint64_eq_ok.mp hnext
    exact .inr rfl

theorem step_setLocked (s : LockSystem) (slug : Slug) (team : ℕ) (root : Hash) (actor : Addr)
    (height : ℤ) (locked : Bool) :
    s.step (.setLocked slug team root actor height locked) = s ∨
    ∃ c, setCurationThreadLocked s.postSeq s.curation slug team root locked = .ok c ∧
      s.step (.setLocked slug team root actor height locked) = { s with
        curation := c
        rows := projectThreadLocked height s.rows
          (threadLockedEvent s.postSeq s.curation slug team root actor locked) } := by
  simp only [step]
  split
  · exact .inl rfl
  · next c hcall => exact .inr ⟨c, hcall, rfl⟩

theorem Tracked.post (h : s.Tracked key first) : (s.step .post).Tracked key first := by
  rcases s.step_post with heq | heq
  · rwa [heq]
  rw [heq]
  have hlater : s.postSeq < s.postSeq + 1 := lt_add_one _
  refine ⟨h.upto.mono hlater.le, h.opened, ?_, h.first_le.trans hlater.le, h.earlier⟩
  rintro p (_ | ⟨_, hp⟩)
  · refine ⟨le_rfl, (h.upto.covers_later hlater).trans ?_⟩
    rw [h.opened]
    rfl
  · exact ⟨(h.posts p hp).1.trans hlater.le, (h.posts p hp).2⟩

theorem Tracked.setLocked (h : s.Tracked key first) (slug : Slug) (team : ℕ) (root : Hash)
    (actor : Addr) (height : ℤ) (locked : Bool) :
    (s.step (.setLocked slug team root actor height locked)).Tracked key first := by
  rcases s.step_setLocked slug team root actor height locked with heq | ⟨c, hcall, heq⟩
  · rwa [heq]
  rw [heq]
  obtain ⟨hown, -, -, hother⟩ := setCurationThreadLocked_eq_ok hcall
  rcases eq_or_ne key (threadKey slug team root) with rfl | hne
  · have hrow := row_of_call s.postSeq actor height locked h.opened
    cases locked with
    | true =>
      rw [if_pos rfl] at hrow hown
      refine h.entry (hrow ▸ h.upto.start) ?_ fun n hn => hrow ▸ Log.covers_start hn
      rw [hrow, hown, ← h.opened]
      rfl
    | false =>
      rw [if_neg Bool.false_ne_true] at hrow hown
      refine h.entry (hrow ▸ h.upto.stop) ?_ fun n hn => hrow ▸ Log.covers_stop hn
      rw [hrow, hown]
      exact Log.opened_stop _ _
  · -- a call on another thread leaves this one's row alone
    have hrow := get_project_of_ne height s.rows
      (e := threadLockedEvent s.postSeq s.curation slug team root actor locked) hne
    refine h.entry ?_ ?_ fun n _ => ?_
    · rw [hrow]
      exact h.upto
    · rw [hrow, (hother key hne).1]
      exact h.opened
    · rw [hrow]
      rfl

theorem Tracked.run (h : s.Tracked key first) (steps : List LockStep) :
    (s.run steps).Tracked key first := by
  induction steps generalizing s with
  | nil => exact h
  | cons st steps ih =>
    refine ih (s := s.step st) ?_
    cases st with
    | post => exact h.post
    | setLocked slug team root actor height locked =>
      exact h.setLocked slug team root actor height locked

/-- A step that locks the thread is counted, and there is room for it. -/
theorem count_step (s : LockSystem) (key : ThreadKey) (st : LockStep) :
    (s.step st).curation.threadLockCount.count key = s.curation.threadLockCount.count key +
        (if s.locked key = false ∧ (s.step st).locked key = true then 1 else 0) ∧
      (s.locked key = false ∧ (s.step st).locked key = true →
        s.curation.threadLockCount.count key < maxThreadLockWindows) := by
  have hsame : ∀ s' : LockSystem, s'.curation = s.curation →
      s'.curation.threadLockCount.count key = s.curation.threadLockCount.count key +
          (if s.locked key = false ∧ s'.locked key = true then 1 else 0) ∧
        (s.locked key = false ∧ s'.locked key = true →
          s.curation.threadLockCount.count key < maxThreadLockWindows) := by
    intro s' hc
    have hnot : ¬ (s.locked key = false ∧ s'.locked key = true) := by
      rw [locked, locked, hc]
      simp
    rw [if_neg hnot, hc]
    exact ⟨rfl, fun h => absurd h hnot⟩
  cases st with
  | post => rcases s.step_post with heq | heq <;> exact hsame _ (by rw [heq])
  | setLocked slug team root actor height locked =>
    rcases s.step_setLocked slug team root actor height locked with heq | ⟨c, hcall, heq⟩
    · exact hsame _ (by rw [heq])
    obtain ⟨hown, hcount, hroom, hother⟩ := setCurationThreadLocked_eq_ok hcall
    rw [heq]
    rcases eq_or_ne key (threadKey slug team root) with rfl | hne
    · have hlocked : c.threadLocks.has (threadKey slug team root) = locked := by
        rw [OrderedMap.has, hown]
        cases locked <;> rfl
      simp only [LockSystem.locked, hlocked]
      exact ⟨hcount, hroom⟩
    · have hkept : c.threadLocks.has key = s.curation.threadLocks.has key := by
        rw [OrderedMap.has, (hother key hne).1, OrderedMap.has]
      simp [LockSystem.locked, hkept, (hother key hne).2]

/-- The windows that a run opens, with those counted before, stay under the limit. -/
theorem opened_le (steps : List LockStep)
    (h : s.curation.threadLockCount.count key ≤ maxThreadLockWindows) :
    s.curation.threadLockCount.count key + opened key s steps ≤ maxThreadLockWindows := by
  induction steps generalizing s with
  | nil => exact h
  | cons st steps ih =>
    obtain ⟨hcount, hroom⟩ := s.count_step key st
    have hle : (s.step st).curation.threadLockCount.count key ≤ maxThreadLockWindows := by
      rw [hcount]
      split
      · next hopen => exact hroom hopen
      · exact h
    have hrest := ih hle
    rw [hcount] at hrest
    rw [opened, ← Nat.add_assoc]
    exact hrest

/-- Chain, indexer and backend agree about a thread that a team has not locked before, after any
posts and lock calls: a post is inside a window of the row exactly if the chain had the thread
locked when it assigned the post's sequence. -/
theorem thread_locks_end_to_end (c : CurationState) (postSeq : ℕ) (slug : Slug) (team : ℕ)
    (root : Hash) (hfree : c.threadLocks.get (threadKey slug team root) = none)
    (hcount : c.threadLockCount.count (threadKey slug team root) = 0) (steps : List LockStep) :
    let key := threadKey slug team root
    let s := (start c postSeq).run steps
    (∀ post ∈ s.posts, insideLockWindow post.1 (s.windows key) = post.2.threadLocks.has key) ∧
    (∀ n ≤ postSeq, insideLockWindow n (s.windows key) = false) ∧
    (s.windows key).Pairwise (fun v w => ∃ stop, v.2 = some stop ∧ stop ≤ w.1) ∧
    ((∃ row, s.rows.get key = some row ∧ row.lockSequence.isSome = true) ↔ s.locked key = true) ∧
    opened key (start c postSeq) steps ≤ maxThreadLockWindows := by
  intro key s
  have h : s.Tracked key postSeq := (tracked_start postSeq hfree).run steps
  refine ⟨fun post hpost => ?_, fun n hn => ?_, ?_, ?_, ?_⟩
  · rw [Bool.eq_iff_iff, windows, insideLockWindow_iff]
    exact (h.posts post hpost).2
  · rw [← Bool.not_eq_true, windows, insideLockWindow_iff]
    exact h.earlier n hn
  · rw [windows, lockWindows_eq]
    exact h.upto.windows_increasing
  · rw [locked, OrderedMap.has, ← h.opened, log]
    cases s.rows.get key with
    | none => simp [logOf, Log.empty]
    | some row => simp [logOf]
  · have hroom : (start c postSeq).curation.threadLockCount.count key ≤ maxThreadLockWindows := by
      have hzero : (start c postSeq).curation.threadLockCount.count key = 0 := hcount
      rw [hzero]
      exact Nat.zero_le _
    exact (Nat.le_add_left _ _).trans (opened_le steps hroom)

/-- A thread that is locked from the second to the third post, unlocked twice, and locked again
after the fourth. -/
def lockedTwice : List LockStep :=
  [.post, .setLocked 5 1 9 7 10 true, .post, .setLocked 5 1 9 8 11 true, .post,
    .setLocked 5 1 9 7 12 false, .setLocked 5 1 9 8 12 false, .post, .setLocked 5 1 9 8 13 true]

/-- Two windows are left, and the second and third post are in the first of them. -/
theorem thread_locks_lockedTwice :
    let s := (start .empty 0).run lockedTwice
    s.windows (threadKey 5 1 9) = [(1, some 3), (4, none)] ∧
    s.posts.map (fun post => insideLockWindow post.1 (s.windows (threadKey 5 1 9))) =
      [false, true, true, false] ∧
    (∀ post ∈ s.posts, insideLockWindow post.1 (s.windows (threadKey 5 1 9)) =
      post.2.threadLocks.has (threadKey 5 1 9)) ∧
    opened (threadKey 5 1 9) (start .empty 0) lockedTwice ≤ maxThreadLockWindows := by
  intro s
  obtain ⟨hposts, -, -, -, hopened⟩ :=
    thread_locks_end_to_end .empty 0 5 1 9 rfl rfl lockedTwice
  exact ⟨by decide +kernel, by decide +kernel, hposts, hopened⟩

end LockSystem

end MirageNode
