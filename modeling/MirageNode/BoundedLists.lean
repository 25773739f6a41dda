import MirageNode.Lib.BoundedQueue
import MirageNode.ProfileLists

/-!
# Bounded lists

The deques of a profile and its blocked communities are queues: an entry that is added
goes to the end, and above the cap the oldest one leaves. Each list is kept as several
records written one after another; `ListStore.Holds` and `BlockedCommunities.Holds` say
which queue the records of an owner stand for, and every addition, removal and eviction is
a step of that queue which leaves the other owners' records alone.
-/

namespace MirageNode

open OrderedStore OrderedMap Fallible BoundedQueue

/-! ## 1. The queue of an owner -/

/-- The entries in the order they were last put in, and how many were put in so far. -/
structure OwnerQueue where
  entries : List ℕ
  inserted : ℕ

namespace OwnerQueue

def empty : OwnerQueue := ⟨[], 0⟩

/-- Nothing is added once one of the counters is at its end. -/
def Full (q : OwnerQueue) : Prop := q.inserted = 2 ^ 64 - 1 ∨ q.entries.length = 2 ^ 32 - 1

instance (q : OwnerQueue) : Decidable q.Full := inferInstanceAs (Decidable (_ ∨ _))

/-- An addition that is not refused. -/
def Takes (q : OwnerQueue) (entry : ℕ) : Prop := entry ∈ q.entries ∨ ¬ q.Full

/-- The counters have room for what they count. -/
def Fits (q : OwnerQueue) : Prop := q.inserted < 2 ^ 64 ∧ q.entries.length < 2 ^ 32

def add (q : OwnerQueue) (entry maxCap : ℕ) : OwnerQueue :=
  if entry ∈ q.entries ∨ q.Full then q else ⟨push maxCap entry q.entries, q.inserted + 1⟩

def remove (q : OwnerQueue) (entry : ℕ) : OwnerQueue := { q with entries := q.entries.erase entry }

/-- An addition before the cap is looked at. -/
def append (q : OwnerQueue) (entry : ℕ) : OwnerQueue := ⟨q.entries ++ [entry], q.inserted + 1⟩

variable {q : OwnerQueue} {entry cap : ℕ}

theorem add_of_mem (cap : ℕ) (h : entry ∈ q.entries) : q.add entry cap = q := if_pos (.inl h)

theorem not_takes (hentry : entry ∉ q.entries) (h : q.Full) : ¬ q.Takes entry :=
  not_or.mpr ⟨hentry, not_not.mpr h⟩

theorem add_of_not_takes (cap : ℕ) (h : ¬ q.Takes entry) : q.add entry cap = q :=
  if_pos (.inr (not_not.mp (not_or.mp h).2))

theorem add_of_new (cap : ℕ) (hentry : entry ∉ q.entries) (hfull : ¬ q.Full) :
    q.add entry cap = ⟨push cap entry q.entries, q.inserted + 1⟩ :=
  if_neg (not_or.mpr ⟨hentry, hfull⟩)

theorem add_of_room (hentry : entry ∉ q.entries) (hfull : ¬ q.Full) (h : q.entries.length < cap) :
    q.add entry cap = q.append entry := by
  rw [add_of_new cap hentry hfull, push_of_room hentry h]
  rfl

/-- At the cap an addition is an addition without one and the removal of the oldest entry. -/
theorem add_of_over (hcap : 0 < cap) (hentry : entry ∉ q.entries) (hfull : ¬ q.Full)
    (h : cap ≤ q.entries.length) :
    ∃ oldest rest, q.entries = oldest :: rest ∧
      q.add entry cap = (q.append entry).remove oldest := by
  obtain ⟨oldest, rest, heq, -, hpush⟩ := push_of_full hcap hentry h
  refine ⟨oldest, rest, heq, ?_⟩
  rw [add_of_new cap hentry hfull, hpush, append, remove, heq]
  simp

theorem Fits.append (h : q.Fits) (hfull : ¬ q.Full) (entry : ℕ) : (q.append entry).Fits := by
  obtain ⟨hinserted, hlength⟩ := h
  obtain ⟨hne, hne'⟩ := not_or.mp hfull
  refine ⟨?_, ?_⟩
  · show q.inserted + 1 < 2 ^ 64
    omega
  · rw [OwnerQueue.append, List.length_append, List.length_singleton]
    omega

theorem Fits.remove (h : q.Fits) (entry : ℕ) : (q.remove entry).Fits :=
  ⟨h.1, List.length_erase_le.trans_lt h.2⟩

end OwnerQueue

theorem checkedAddUint64_succ {a : ℕ} (h : a < 2 ^ 64 - 1) : checkedAddUint64 a 1 = .ok (a + 1) :=
  checkedAddUint64_eq_ok.mpr ⟨Nat.le_pred_of_lt h, rfl⟩

/-! ## 2. Deques -/

namespace ListStore

def listOrderedEntries (l : ListStore) (owner : Addr) : List ℕ := byStamp (l.entries.slice owner)

/-- What the family keeps of an owner stands for the queue. -/
structure Holds (l : ListStore) (owner : Addr) (q : OwnerQueue) : Prop where
  stamped : Stamped (l.entries.slice owner) (l.seqs.count owner) q.entries
  count : l.counts.count owner = q.entries.length
  next : l.seqs.count owner = q.inserted
  fits : q.Fits

/-- Both families keep the same of an owner. -/
structure Agree (l l' : ListStore) (owner : Addr) : Prop where
  entries : l'.entries.slice owner = l.entries.slice owner
  counts : l'.counts.count owner = l.counts.count owner
  seqs : l'.seqs.count owner = l.seqs.count owner

/-- The records once an entry was written behind the others, before the cap is looked at. -/
def written (l : ListStore) (owner : Addr) (entry : ℕ) : ListStore where
  entries := l.entries.set (toLex (owner, entry)) (l.seqs.count owner)
  counts := l.counts.set owner (l.counts.count owner + 1)
  seqs := l.seqs.set owner (l.seqs.count owner + 1)

variable {l l' l₁ : ListStore} {owner other : Addr} {q : OwnerQueue} {entry cap : ℕ}

theorem Agree.refl (l : ListStore) (owner : Addr) : l.Agree l owner := ⟨rfl, rfl, rfl⟩

theorem Agree.trans (h : l.Agree l₁ owner) (h' : l₁.Agree l' owner) : l.Agree l' owner :=
  ⟨h'.entries.trans h.entries, h'.counts.trans h.counts, h'.seqs.trans h.seqs⟩

theorem agree_written (l : ListStore) (entry : ℕ) (hne : other ≠ owner) :
    l.Agree (l.written owner entry) other where
  entries := slice_set_of_ne _ (Ne.symm hne)
  counts := by rw [written, count_set, if_neg hne]
  seqs := by rw [written, count_set, if_neg hne]

theorem agree_removeSetEntry (l : ListStore) (entry : ℕ) (hne : other ≠ owner) :
    l.Agree (l.removeSetEntry owner entry) other := by
  unfold removeSetEntry
  split
  · refine ⟨slice_erase_of_ne (Ne.symm hne), ?_, rfl⟩
    exact count_setCount_of_ne _ hne
  · exact .refl l other

theorem lowerSeq_eq : lowerSeq = keepLower Prod.snd := by
  funext best e
  cases best <;> rfl

variable (h : l.Holds owner q)

include h

theorem Holds.of_agree (ha : l.Agree l' owner) : l'.Holds owner q where
  stamped := by
    rw [ha.entries, ha.seqs]
    exact h.stamped
  count := ha.counts.trans h.count
  next := ha.seqs.trans h.next
  fits := h.fits

theorem Holds.hasEntry_iff : l.hasEntry owner entry = true ↔ entry ∈ q.entries := by
  rw [h.stamped.mem, hasEntry, OrderedMap.has, OrderedMap.has, get_slice]

theorem Holds.listOrderedEntries_eq : l.listOrderedEntries owner = q.entries := h.stamped.byStamp_eq

theorem Holds.written (hentry : entry ∉ q.entries) (hfull : ¬ q.Full) :
    (l.written owner entry).Holds owner (q.append entry) where
  stamped := by
    rw [ListStore.written, slice_set_self, count_set, if_pos rfl]
    exact h.stamped.push hentry
  count := by
    rw [ListStore.written, count_set, if_pos rfl, h.count, OwnerQueue.append,
      List.length_append, List.length_singleton]
  next := by
    rw [ListStore.written, count_set, if_pos rfl, h.next]
    rfl
  fits := h.fits.append hfull entry

theorem Holds.removeSetEntry (entry : ℕ) :
    (l.removeSetEntry owner entry).Holds owner (q.remove entry) := by
  have hfits := h.fits.remove entry
  unfold ListStore.removeSetEntry
  by_cases hentry : entry ∈ q.entries
  · rw [if_pos (h.hasEntry_iff.mpr hentry)]
    refine ⟨?_, ?_, h.next, hfits⟩
    · rw [slice_erase_self]
      exact h.stamped.erase entry
    · rw [count_setCount_self, h.count]
      exact (List.length_erase_of_mem hentry).symm
  · rw [if_neg (mt h.hasEntry_iff.mp hentry)]
    rwa [OwnerQueue.remove, List.erase_of_not_mem hentry]

/-- The oldest entry leaves. -/
theorem Holds.evictLowestSeq_eq {oldest : ℕ} {rest : List ℕ} (hq : q.entries = oldest :: rest) :
    l.evictLowestSeq owner = { l with entries := l.entries.erase (toLex (owner, oldest)) } := by
  have hstamped := h.stamped
  rw [hq] at hstamped
  have hfold : (l.entries.slice owner).entries.foldl lowerSeq none =
      some (oldest, (l.entries.slice owner).count oldest) := by
    rw [lowerSeq_eq]
    refine foldl_keepLower_eq (mem_entries_iff.mpr hstamped.get_head) ?_
    rintro ⟨e, seq⟩ he hle
    have hget := mem_entries_iff.mp he
    obtain rfl := hstamped.head_least hget hle
    rw [OrderedMap.count, hget]
    rfl
  rw [evictLowestSeq, hfold]

/-- Above the cap the oldest entry leaves as a removal takes it. -/
theorem Holds.evicted {oldest : ℕ} {rest : List ℕ} (hq : q.entries = oldest :: rest) :
    { l.evictLowestSeq owner with
      counts := (l.evictLowestSeq owner).counts.setCount owner (l.counts.count owner - 1) } =
      l.removeSetEntry owner oldest := by
  have hhas := h.hasEntry_iff.mpr (hq ▸ List.mem_cons_self)
  rw [h.evictLowestSeq_eq hq, ListStore.removeSetEntry, if_pos hhas]

theorem Holds.addDequeEntry (entry : ℕ) (hcap : 0 < cap) :
    Ensures (l.addDequeEntry owner entry cap)
      (fun l' => q.Takes entry ∧ l'.Holds owner (q.add entry cap) ∧
        ∀ other, other ≠ owner → l.Agree l' other)
      (fun _ => ¬ q.Takes entry) := by
  unfold ListStore.addDequeEntry
  by_cases hentry : entry ∈ q.entries
  · rw [if_pos (h.hasEntry_iff.mpr hentry), OwnerQueue.add_of_mem cap hentry]
    exact ⟨.inl hentry, h, fun other _ => .refl l other⟩
  rw [if_neg (mt h.hasEntry_iff.mp hentry)]
  refine Ensures.bind_eq (fun e he => OwnerQueue.not_takes hentry (.inl ?_)) fun next hnext =>
    Ensures.failIf_bind (fun hcount => OwnerQueue.not_takes hentry (.inr (h.count ▸ hcount)))
      fun hcount => ?_
  · by_contra hroom
    rw [checkedAddUint64_succ (h.next ▸ by have := h.fits.1; omega)] at he
    cases he
  rw [mapError_eq_ok, checkedAddUint64_eq_ok] at hnext
  obtain ⟨hroom, rfl⟩ := hnext
  have hfull : ¬ q.Full :=
    not_or.mpr ⟨h.next ▸ (Nat.lt_of_le_of_lt hroom (by decide)).ne, h.count ▸ hcount⟩
  have hwritten := h.written hentry hfull
  rcases lt_or_ge q.entries.length cap with hunder | hover
  · rw [if_neg (by rw [h.count]; omega), OwnerQueue.add_of_room hentry hfull hunder]
    exact ⟨.inr hfull, hwritten, fun other hne => l.agree_written entry hne⟩
  · obtain ⟨oldest, rest, hq, hadd⟩ := OwnerQueue.add_of_over hcap hentry hfull hover
    have hqueue : (q.append entry).entries = oldest :: (rest ++ [entry]) := by
      rw [OwnerQueue.append, hq, List.cons_append]
    have hevicted := hwritten.evicted hqueue
    rw [if_pos ⟨hcap, by rw [h.count]; omega⟩, hadd]
    have hcnt : (l.written owner entry).counts.count owner = l.counts.count owner + 1 := by
      rw [ListStore.written, count_set, if_pos rfl]
    rw [hcnt] at hevicted
    have hresult : ((l.written owner entry).removeSetEntry owner oldest).Holds owner
        ((q.append entry).remove oldest) ∧ ∀ other, other ≠ owner →
          l.Agree ((l.written owner entry).removeSetEntry owner oldest) other :=
      ⟨hwritten.removeSetEntry oldest, fun other hne =>
        (l.agree_written entry hne).trans (agree_removeSetEntry _ oldest hne)⟩
    rw [← hevicted] at hresult
    exact ⟨.inr hfull, hresult⟩

end ListStore

/-! ## 3. Blocked communities -/

namespace BlockedCommunities

/-- What the lists keep of an owner stands for the queue, and the index and the ordered
records agree. -/
structure Holds (b : BlockedCommunities) (owner : Addr) (q : OwnerQueue) : Prop where
  stamped : Stamped (b.idx.slice owner) (b.next.count owner) q.entries
  records : ∀ pattern seq, b.entries.has (toLex (owner, toLex (seq, pattern))) = true ↔
    b.idx.get (toLex (owner, pattern)) = some seq
  count : b.counts.count owner = q.entries.length
  next : b.next.count owner = q.inserted
  fits : q.Fits

/-- Both keep the same of an owner. -/
structure Agree (b b' : BlockedCommunities) (owner : Addr) : Prop where
  entries : b'.entries.slice owner = b.entries.slice owner
  idx : b'.idx.slice owner = b.idx.slice owner
  counts : b'.counts.count owner = b.counts.count owner
  next : b'.next.count owner = b.next.count owner

/-- The records once a pattern was written behind the others, before the cap is looked at. -/
def written (b : BlockedCommunities) (owner : Addr) (pattern : Text) : BlockedCommunities where
  entries := b.entries.set (toLex (owner, toLex (b.next.count owner, pattern))) ()
  idx := b.idx.set (toLex (owner, pattern)) (b.next.count owner)
  counts := b.counts.setCount owner (b.counts.count owner + 1)
  next := b.next.set owner (b.next.count owner + 1)

/-- The records once a pattern with this number was taken out. -/
def erased (b : BlockedCommunities) (owner : Addr) (pattern : Text) (seq : ℕ) :
    BlockedCommunities where
  entries := b.entries.erase (toLex (owner, toLex (seq, pattern)))
  idx := b.idx.erase (toLex (owner, pattern))
  counts := b.counts.setCount owner (b.counts.count owner - 1)
  next := b.next

variable {b b' b₁ : BlockedCommunities} {owner other : Addr} {q : OwnerQueue} {pattern : Text}
  {cap seq : ℕ}

theorem Agree.refl (b : BlockedCommunities) (owner : Addr) : b.Agree b owner := ⟨rfl, rfl, rfl, rfl⟩

theorem Agree.trans (h : b.Agree b₁ owner) (h' : b₁.Agree b' owner) : b.Agree b' owner :=
  ⟨h'.entries.trans h.entries, h'.idx.trans h.idx, h'.counts.trans h.counts,
    h'.next.trans h.next⟩

theorem has_blockKey_slice (b : BlockedCommunities) (owner : Addr) (key : ℕ ×ₗ Text) :
    b.entries.has (toLex (owner, key)) = (b.entries.slice owner).has key := by
  rw [OrderedMap.has, OrderedMap.has, get_slice]

theorem mem_patterns : pattern ∈ b.patterns owner ↔
    ∃ seq, b.entries.has (toLex (owner, toLex (seq, pattern))) = true := by
  simp only [BlockedCommunities.patterns, List.mem_map, Prod.exists, mem_entries_iff,
    get_slice, has_iff]
  constructor
  · rintro ⟨k, v, hget, rfl⟩
    exact ⟨(ofLex k).1, v, hget⟩
  · rintro ⟨seq, v, hget⟩
    exact ⟨toLex (seq, pattern), v, hget, rfl⟩

theorem agree_written (b : BlockedCommunities) (pattern : Text) (hne : other ≠ owner) :
    b.Agree (b.written owner pattern) other where
  entries := slice_set_of_ne _ (Ne.symm hne)
  idx := slice_set_of_ne _ (Ne.symm hne)
  counts := count_setCount_of_ne _ hne
  next := by rw [written, count_set, if_neg hne]

theorem agree_erased (b : BlockedCommunities) (pattern : Text) (seq : ℕ) (hne : other ≠ owner) :
    b.Agree (b.erased owner pattern seq) other where
  entries := slice_erase_of_ne (Ne.symm hne)
  idx := slice_erase_of_ne (Ne.symm hne)
  counts := count_setCount_of_ne _ hne
  next := rfl

theorem older_eq : older = keepLower Prod.fst := by
  funext best e
  cases best <;> rfl

variable (h : b.Holds owner q)

include h

theorem Holds.of_agree (ha : b.Agree b' owner) : b'.Holds owner q where
  stamped := by
    rw [ha.idx, ha.next]
    exact h.stamped
  records pattern seq := by
    rw [has_blockKey_slice, ha.entries, ← has_blockKey_slice, h.records, ← get_slice,
      ← get_slice b'.idx, ha.idx]
  count := ha.counts.trans h.count
  next := ha.next.trans h.next
  fits := h.fits

theorem Holds.mem_iff :
    pattern ∈ q.entries ↔ ∃ seq, b.idx.get (toLex (owner, pattern)) = some seq := by
  rw [h.stamped.mem, has_iff, get_slice]

/-- The records come in the order of their numbers. -/
theorem Holds.pairwise_patterns : (b.patterns owner).Pairwise fun p p' =>
    (b.idx.slice owner).count p < (b.idx.slice owner).count p' := by
  have hseq : ∀ {k : ℕ ×ₗ Text} {v : Unit}, (k, v) ∈ (b.entries.slice owner).entries →
      (b.idx.slice owner).get (ofLex k).2 = some (ofLex k).1 := by
    intro k v hk
    rw [mem_entries_iff, get_slice] at hk
    rw [get_slice]
    exact (h.records _ _).mp (has_iff.mpr ⟨v, hk⟩)
  rw [patterns, List.pairwise_map]
  refine (b.entries.slice owner).sorted.imp_of_mem ?_
  rintro ⟨k, v⟩ ⟨k', v'⟩ hk hk' hlt
  rw [OrderedMap.count, OrderedMap.count, hseq hk, hseq hk']
  rcases Prod.Lex.lt_iff.mp hlt with hfst | ⟨hfst, hsnd⟩
  · exact hfst
  · -- one number stands for one pattern
    have hsame := h.stamped.injective (hseq hk) (hfst ▸ hseq hk')
    exact absurd hsame (ne_of_lt hsnd)

theorem Holds.patterns_eq : b.patterns owner = q.entries := by
  have hpairwise := h.pairwise_patterns
  have hnodup : (b.patterns owner).Nodup := hpairwise.imp fun hlt heq => by
    subst heq
    exact lt_irrefl _ hlt
  refine List.Perm.eq_of_pairwise (fun p p' _ _ hlt hgt => absurd hlt hgt.asymm) hpairwise
    h.stamped.order ((List.perm_ext_iff_of_nodup hnodup h.stamped.nodup).mpr fun p => ?_)
  simp only [mem_patterns, h.mem_iff, h.records]

theorem Holds.written (hpattern : pattern ∉ q.entries) (hfull : ¬ q.Full) :
    (b.written owner pattern).Holds owner (q.append pattern) where
  stamped := by
    rw [BlockedCommunities.written, slice_set_self, count_set, if_pos rfl]
    exact h.stamped.push hpattern
  records p seq := by
    rw [BlockedCommunities.written, has_set_iff, h.records, get_set]
    by_cases hp : p = pattern
    · subst hp
      have hnone : ∀ seq, b.idx.get (toLex (owner, p)) ≠ some seq := fun seq hget =>
        hpattern (h.mem_iff.mpr ⟨seq, hget⟩)
      simp [hnone, eq_comm]
    · simp [hp]
  count := by
    rw [BlockedCommunities.written, count_setCount_self, h.count, OwnerQueue.append,
      List.length_append, List.length_singleton]
  next := by
    rw [BlockedCommunities.written, count_set, if_pos rfl, h.next]
    rfl
  fits := h.fits.append hfull pattern

theorem Holds.erased (hget : b.idx.get (toLex (owner, pattern)) = some seq) :
    (b.erased owner pattern seq).Holds owner (q.remove pattern) where
  stamped := by
    rw [BlockedCommunities.erased, slice_erase_self]
    exact h.stamped.erase pattern
  records p seq' := by
    rw [BlockedCommunities.erased, has_erase, Bool.and_eq_true, h.records,
      get_erase]
    by_cases hp : p = pattern
    · subst hp
      simp only [if_true, reduceCtorEq, iff_false, not_and]
      intro hne hget'
      obtain rfl := Option.some.inj (hget.symm.trans hget')
      simp at hne
    · simp [hp]
  count := by
    rw [BlockedCommunities.erased, count_setCount_self, h.count]
    exact (List.length_erase_of_mem (h.mem_iff.mpr ⟨seq, hget⟩)).symm
  next := h.next
  fits := h.fits.remove pattern

theorem Holds.remove (pattern : Text) :
    Ensures (b.remove owner pattern)
      (fun b' => b'.Holds owner (q.remove pattern) ∧ ∀ other, other ≠ owner → b.Agree b' other)
      (fun _ => False) := by
  unfold BlockedCommunities.remove
  cases hget : b.idx.get (toLex (owner, pattern)) with
  | none =>
    have hpattern : pattern ∉ q.entries := fun hmem => by
      obtain ⟨seq, hseq⟩ := h.mem_iff.mp hmem
      rw [hget] at hseq
      cases hseq
    refine ⟨?_, fun other _ => .refl b other⟩
    rwa [OwnerQueue.remove, List.erase_of_not_mem hpattern]
  | some seq =>
    have hmem : pattern ∈ q.entries := h.mem_iff.mpr ⟨seq, hget⟩
    have hdec := addCheckedU32_dec_ok (h.count ▸ List.length_pos_of_mem hmem)
      (h.count ▸ h.fits.2)
    simp only [hdec, ok_bind]
    exact ⟨h.erased hget, fun other hne => b.agree_erased pattern seq hne⟩

theorem Holds.evictOldest_eq {oldest : Text} {rest : List ℕ}
    (hq : q.entries = oldest :: rest) : b.evictOldest owner = b.remove owner oldest := by
  have hstamped := h.stamped
  rw [hq] at hstamped
  have hmem : ∀ (seq : ℕ) (p : Text),
      (seq, p) ∈ (b.entries.slice owner).entries.map (fun e => ofLex e.1) ↔
        (b.idx.slice owner).get p = some seq := by
    intro seq p
    rw [get_slice, ← h.records, has_blockKey_slice, has_iff]
    simp only [List.mem_map, Prod.exists, mem_entries_iff]
    exact ⟨fun ⟨k, v, hget, hk⟩ => ⟨v, hk ▸ hget⟩, fun ⟨v, hget⟩ => ⟨_, v, hget, rfl⟩⟩
  have hfold : ((b.entries.slice owner).entries.map fun e => ofLex e.1).foldl older none =
      some ((b.idx.slice owner).count oldest, oldest) := by
    rw [older_eq]
    refine foldl_keepLower_eq ((hmem _ _).mpr hstamped.get_head) ?_
    rintro ⟨seq, p⟩ hp hle
    have hget := (hmem seq p).mp hp
    obtain rfl := hstamped.head_least hget hle
    rw [OrderedMap.count, hget]
    rfl
  rw [evictOldest, hfold]

theorem Holds.add (pattern : Text) (hcap : 0 < cap) :
    Ensures (b.add owner pattern cap)
      (fun b' => q.Takes pattern ∧ b'.Holds owner (q.add pattern cap) ∧
        ∀ other, other ≠ owner → b.Agree b' other)
      (fun _ => ¬ q.Takes pattern) := by
  have hhas : b.idx.has (toLex (owner, pattern)) = true ↔ pattern ∈ q.entries :=
    has_iff.trans h.mem_iff.symm
  unfold BlockedCommunities.add
  by_cases hpattern : pattern ∈ q.entries
  · rw [if_pos (hhas.mpr hpattern), OwnerQueue.add_of_mem cap hpattern]
    exact ⟨.inl hpattern, h, fun other _ => .refl b other⟩
  rw [if_neg (mt hhas.mp hpattern)]
  refine Ensures.failIf_bind (fun hzero => absurd hzero hcap.ne') fun _ =>
    Ensures.bind_eq (fun e he => OwnerQueue.not_takes hpattern (.inl ?_)) fun next hnext =>
    Ensures.bind_eq (fun e he => OwnerQueue.not_takes hpattern (.inr ?_)) fun counts hcounts => ?_
  · by_contra hroom
    rw [checkedAddUint64_succ (h.next ▸ by have := h.fits.1; omega)] at he
    cases he
  · by_contra hroom
    rw [addCheckedU32_inc_ok (h.count ▸ by have := h.fits.2; omega)] at he
    cases he
  rw [mapError_eq_ok, checkedAddUint64_eq_ok] at hnext
  obtain ⟨hroom, rfl⟩ := hnext
  obtain ⟨hfits, rfl⟩ := addCheckedU32_inc hcounts
  have hfull : ¬ q.Full :=
    not_or.mpr ⟨h.next ▸ (Nat.lt_of_le_of_lt hroom (by decide)).ne, h.count ▸ by omega⟩
  have hwritten := h.written hpattern hfull
  have hcnt := count_setCount_self b.counts owner (b.counts.count owner + 1)
  rcases lt_or_ge q.entries.length cap with hunder | hover
  · rw [hcnt, if_neg (by rw [h.count]; omega), OwnerQueue.add_of_room hpattern hfull hunder]
    exact ⟨.inr hfull, hwritten, fun other hne => b.agree_written pattern hne⟩
  · obtain ⟨oldest, rest, hq, hadd⟩ := OwnerQueue.add_of_over hcap hpattern hfull hover
    have hqueue : (q.append pattern).entries = oldest :: (rest ++ [pattern]) := by
      rw [OwnerQueue.append, hq, List.cons_append]
    obtain ⟨b', hremove, hholds, hagree⟩ := (hwritten.remove oldest).exists_ok
    rw [hcnt, if_pos (by rw [h.count]; omega), hadd]
    have hevict := (hwritten.evictOldest_eq hqueue).trans hremove
    have hresult : Ensures ((b.written owner pattern).evictOldest owner)
        (fun b' => q.Takes pattern ∧ b'.Holds owner ((q.append pattern).remove oldest) ∧
          ∀ other, other ≠ owner → b.Agree b' other)
        (fun _ => ¬ q.Takes pattern) := by
      rw [hevict]
      exact ⟨.inr hfull, hholds, fun other hne =>
        (b.agree_written pattern hne).trans (hagree other hne)⟩
    exact hresult

end BlockedCommunities

/-! ## 4. Histories of calls -/

/-- The lists of a profile that drop their oldest entry above a cap. -/
inductive ListName where
  | blockedUsers
  | blockedPosts
  | blockedCommunities
deriving DecidableEq

/-- The records of these lists. -/
structure OwnerLists where
  blockedUsers : ListStore
  blockedPosts : ListStore
  blockedCommunities : BlockedCommunities

/-- An addition or a removal. Each addition brings the cap that holds at the time. -/
inductive ListCall where
  | add (name : ListName) (owner : Addr) (entry maxCap : ℕ)
  | remove (name : ListName) (owner : Addr) (entry : ℕ)

def ListCall.name : ListCall → ListName
  | .add name _ _ _ | .remove name _ _ => name

def ListCall.owner : ListCall → Addr
  | .add _ owner _ _ | .remove _ owner _ => owner

/-- The cap is at least one. -/
def ListCall.Capped : ListCall → Prop
  | .add _ _ _ maxCap => 0 < maxCap
  | .remove _ _ _ => True

/-- The call is not refused. -/
def OwnerQueue.TakesCall (q : OwnerQueue) : ListCall → Prop
  | .add _ _ entry _ => q.Takes entry
  | .remove _ _ _ => True

/-- What the call makes of the queue of its list. -/
def OwnerQueue.after (q : OwnerQueue) : ListCall → OwnerQueue
  | .add _ _ entry maxCap => q.add entry maxCap
  | .remove _ _ entry => q.remove entry

theorem OwnerQueue.after_of_not_takes {q : OwnerQueue} {c : ListCall} (h : ¬ q.TakesCall c) :
    q.after c = q := by
  cases c with
  | add name owner entry cap => exact OwnerQueue.add_of_not_takes cap h
  | remove name owner entry => exact absurd trivial h

namespace OwnerLists

def empty : OwnerLists := ⟨.empty, .empty, .empty⟩

/-- `AddBlockedUserDeque`, `AddBlockedPostDeque`, `AddBlockedCommunity` and the removals. -/
def exec (ls : OwnerLists) : ListCall → Except ChainError OwnerLists
  | .add .blockedUsers owner entry maxCap => do
    return { ls with blockedUsers := ← ls.blockedUsers.addDequeEntry owner entry maxCap }
  | .add .blockedPosts owner entry maxCap => do
    return { ls with blockedPosts := ← ls.blockedPosts.addDequeEntry owner entry maxCap }
  | .add .blockedCommunities owner entry maxCap => do
    return { ls with blockedCommunities := ← ls.blockedCommunities.add owner entry maxCap }
  | .remove .blockedUsers owner entry =>
    .ok { ls with blockedUsers := ls.blockedUsers.removeSetEntry owner entry }
  | .remove .blockedPosts owner entry =>
    .ok { ls with blockedPosts := ls.blockedPosts.removeSetEntry owner entry }
  | .remove .blockedCommunities owner entry => do
    return { ls with blockedCommunities := ← ls.blockedCommunities.remove owner entry }

/-- The writes of a call that fails are rolled back. -/
def call (ls : OwnerLists) (c : ListCall) : OwnerLists :=
  match ls.exec c with
  | .ok ls' => ls'
  | .error _ => ls

def run (calls : List ListCall) : OwnerLists := calls.foldl call empty

/-- The stored entries of a list with their sequence numbers. -/
def stored (ls : OwnerLists) (owner : Addr) : ListName → OrderedMap ℕ ℕ
  | .blockedUsers => ls.blockedUsers.entries.slice owner
  | .blockedPosts => ls.blockedPosts.entries.slice owner
  | .blockedCommunities => ls.blockedCommunities.idx.slice owner

def count (ls : OwnerLists) (owner : Addr) : ListName → ℕ
  | .blockedUsers => ls.blockedUsers.counts.count owner
  | .blockedPosts => ls.blockedPosts.counts.count owner
  | .blockedCommunities => ls.blockedCommunities.counts.count owner

def next (ls : OwnerLists) (owner : Addr) : ListName → ℕ
  | .blockedUsers => ls.blockedUsers.seqs.count owner
  | .blockedPosts => ls.blockedPosts.seqs.count owner
  | .blockedCommunities => ls.blockedCommunities.next.count owner

/-- `ListBlockedUsers`, `ListBlockedPosts` and `ListBlockedCommunities`. -/
def list (ls : OwnerLists) (owner : Addr) : ListName → List ℕ
  | .blockedUsers => ls.blockedUsers.listOrderedEntries owner
  | .blockedPosts => ls.blockedPosts.listOrderedEntries owner
  | .blockedCommunities => ls.blockedCommunities.patterns owner

/-- The records of a list of an owner stand for the queue. -/
def Holds (ls : OwnerLists) (owner : Addr) (q : OwnerQueue) : ListName → Prop
  | .blockedUsers => ls.blockedUsers.Holds owner q
  | .blockedPosts => ls.blockedPosts.Holds owner q
  | .blockedCommunities => ls.blockedCommunities.Holds owner q

/-- The records of a list of an owner are the same. -/
def Agree (ls ls' : OwnerLists) (owner : Addr) : ListName → Prop
  | .blockedUsers => ls.blockedUsers.Agree ls'.blockedUsers owner
  | .blockedPosts => ls.blockedPosts.Agree ls'.blockedPosts owner
  | .blockedCommunities => ls.blockedCommunities.Agree ls'.blockedCommunities owner

variable {ls ls' : OwnerLists} {owner : Addr} {name : ListName} {q : OwnerQueue}

theorem Agree.refl (ls : OwnerLists) (owner : Addr) : ∀ name, ls.Agree ls owner name
  | .blockedUsers => ListStore.Agree.refl _ owner
  | .blockedPosts => ListStore.Agree.refl _ owner
  | .blockedCommunities => BlockedCommunities.Agree.refl _ owner

theorem Holds.of_agree (h : ls.Holds owner q name) (ha : ls.Agree ls' owner name) :
    ls'.Holds owner q name := by
  cases name with
  | blockedUsers => exact ListStore.Holds.of_agree h ha
  | blockedPosts => exact ListStore.Holds.of_agree h ha
  | blockedCommunities => exact BlockedCommunities.Holds.of_agree h ha

theorem Holds.stamped (h : ls.Holds owner q name) :
    Stamped (ls.stored owner name) (ls.next owner name) q.entries := by
  cases name with
  | blockedUsers => exact ListStore.Holds.stamped h
  | blockedPosts => exact ListStore.Holds.stamped h
  | blockedCommunities => exact BlockedCommunities.Holds.stamped h

theorem Holds.count_eq (h : ls.Holds owner q name) : ls.count owner name = q.entries.length := by
  cases name with
  | blockedUsers => exact ListStore.Holds.count h
  | blockedPosts => exact ListStore.Holds.count h
  | blockedCommunities => exact BlockedCommunities.Holds.count h

theorem Holds.next_eq (h : ls.Holds owner q name) : ls.next owner name = q.inserted := by
  cases name with
  | blockedUsers => exact ListStore.Holds.next h
  | blockedPosts => exact ListStore.Holds.next h
  | blockedCommunities => exact BlockedCommunities.Holds.next h

theorem Holds.list_eq (h : ls.Holds owner q name) : ls.list owner name = q.entries := by
  cases name with
  | blockedUsers => exact ListStore.Holds.listOrderedEntries_eq h
  | blockedPosts => exact ListStore.Holds.listOrderedEntries_eq h
  | blockedCommunities => exact BlockedCommunities.Holds.patterns_eq h

theorem holds_empty (owner : Addr) : ∀ name, empty.Holds owner .empty name
  | .blockedUsers | .blockedPosts =>
    ⟨.empty 0, rfl, rfl, by unfold OwnerQueue.Fits; decide⟩
  | .blockedCommunities =>
    ⟨.empty 0, fun _ _ => iff_of_false Bool.false_ne_true (Option.some_ne_none _).symm, rfl, rfl,
      by unfold OwnerQueue.Fits; decide⟩

/-- A write to one list that leaves the other owners' records alone leaves everything but
the list of its owner alone. -/
theorem agree_blockedUsers {l : ListStore}
    (h : ∀ other, other ≠ owner → ls.blockedUsers.Agree l other) {other : Addr} {name : ListName}
    (hne : (other, name) ≠ (owner, .blockedUsers)) :
    ls.Agree { ls with blockedUsers := l } other name := by
  cases name with
  | blockedUsers => exact h other fun heq => hne (heq ▸ rfl)
  | blockedPosts => exact ListStore.Agree.refl _ other
  | blockedCommunities => exact BlockedCommunities.Agree.refl _ other

theorem agree_blockedPosts {l : ListStore}
    (h : ∀ other, other ≠ owner → ls.blockedPosts.Agree l other) {other : Addr} {name : ListName}
    (hne : (other, name) ≠ (owner, .blockedPosts)) :
    ls.Agree { ls with blockedPosts := l } other name := by
  cases name with
  | blockedUsers => exact ListStore.Agree.refl _ other
  | blockedPosts => exact h other fun heq => hne (heq ▸ rfl)
  | blockedCommunities => exact BlockedCommunities.Agree.refl _ other

theorem agree_blockedCommunities {b : BlockedCommunities}
    (h : ∀ other, other ≠ owner → ls.blockedCommunities.Agree b other) {other : Addr}
    {name : ListName} (hne : (other, name) ≠ (owner, .blockedCommunities)) :
    ls.Agree { ls with blockedCommunities := b } other name := by
  cases name with
  | blockedUsers => exact ListStore.Agree.refl _ other
  | blockedPosts => exact ListStore.Agree.refl _ other
  | blockedCommunities => exact h other fun heq => hne (heq ▸ rfl)

/-- One call: a step of the queue it is about, unless it is an addition to a list with a
counter at its end. -/
theorem Holds.exec {c : ListCall} (h : ls.Holds c.owner q c.name) (hcap : c.Capped) :
    Ensures (ls.exec c)
      (fun ls' => q.TakesCall c ∧ ls'.Holds c.owner (q.after c) c.name ∧
        ∀ other name, (other, name) ≠ (c.owner, c.name) → ls.Agree ls' other name)
      (fun _ => ¬ q.TakesCall c) := by
  match c, h, hcap with
  | .add .blockedUsers owner entry cap, h, hcap =>
    exact (ListStore.Holds.addDequeEntry h entry hcap).bind fun l ⟨htakes, hl, ha⟩ =>
      ⟨htakes, hl, fun _ _ hne => agree_blockedUsers ha hne⟩
  | .add .blockedPosts owner entry cap, h, hcap =>
    exact (ListStore.Holds.addDequeEntry h entry hcap).bind fun l ⟨htakes, hl, ha⟩ =>
      ⟨htakes, hl, fun _ _ hne => agree_blockedPosts ha hne⟩
  | .add .blockedCommunities owner entry cap, h, hcap =>
    exact (BlockedCommunities.Holds.add h entry hcap).bind fun b ⟨htakes, hb, ha⟩ =>
      ⟨htakes, hb, fun _ _ hne => agree_blockedCommunities ha hne⟩
  | .remove .blockedUsers owner entry, h, _ =>
    refine ⟨trivial, ListStore.Holds.removeSetEntry h entry, fun _ _ hne =>
      agree_blockedUsers (fun _ hother => ?_) hne⟩
    exact ListStore.agree_removeSetEntry _ entry hother
  | .remove .blockedPosts owner entry, h, _ =>
    refine ⟨trivial, ListStore.Holds.removeSetEntry h entry, fun _ _ hne =>
      agree_blockedPosts (fun _ hother => ?_) hne⟩
    exact ListStore.agree_removeSetEntry _ entry hother
  | .remove .blockedCommunities owner entry, h, _ =>
    refine Ensures.bind ((BlockedCommunities.Holds.remove h entry).imp (fun _ => id) ?_) ?_
    · exact fun _ hfalse => hfalse.elim
    · exact fun b ⟨hb, ha⟩ => ⟨trivial, hb, fun _ _ hne => agree_blockedCommunities ha hne⟩

/-- With the calls that fail. -/
theorem Holds.call {c : ListCall} (h : ls.Holds c.owner q c.name) (hcap : c.Capped) :
    (ls.call c).Holds c.owner (q.after c) c.name ∧
      ∀ other name, (other, name) ≠ (c.owner, c.name) → ls.Agree (ls.call c) other name := by
  have hexec := h.exec hcap
  unfold OwnerLists.call
  cases hres : ls.exec c with
  | ok ls' =>
    rw [hres] at hexec
    exact hexec.2
  | error e =>
    rw [hres] at hexec
    rw [OwnerQueue.after_of_not_takes hexec]
    exact ⟨h, fun other name _ => .refl ls other name⟩

/-- The queue that the calls for a list of an owner add up to. -/
def queueOf (calls : List ListCall) (owner : Addr) (name : ListName) : OwnerQueue :=
  (calls.filter fun c => (c.owner, c.name) = (owner, name)).foldl OwnerQueue.after .empty

theorem queueOf_append (calls : List ListCall) (c : ListCall) (owner : Addr) (name : ListName) :
    queueOf (calls ++ [c]) owner name =
      if (c.owner, c.name) = (owner, name) then (queueOf calls owner name).after c
      else queueOf calls owner name := by
  rw [queueOf, List.filter_append, List.foldl_append, List.filter_singleton]
  by_cases h : (c.owner, c.name) = (owner, name)
  · rw [if_pos h, decide_eq_true h]
    rfl
  · rw [if_neg h, decide_eq_false h]
    rfl

/-- Whole histories, by induction from the last call on. -/
theorem holds_run {calls : List ListCall} (hcaps : ∀ c ∈ calls, c.Capped) (owner : Addr)
    (name : ListName) : (run calls).Holds owner (queueOf calls owner name) name := by
  induction calls using List.reverseRecOn generalizing owner name with
  | nil => exact holds_empty owner name
  | append_singleton calls c ih =>
    have ih := ih fun c hc => hcaps c (List.mem_append_left _ hc)
    have hcap := hcaps c (List.mem_append_right _ List.mem_cons_self)
    obtain ⟨hholds, hagree⟩ := (ih c.owner c.name).call hcap
    rw [run, List.foldl_append, List.foldl_cons, List.foldl_nil, ← run, queueOf_append]
    split
    next heq =>
      obtain ⟨rfl, rfl⟩ := Prod.mk.inj heq
      exact hholds
    next hne => exact (ih owner name).of_agree (hagree owner name (Ne.symm hne))

theorem exec_add_of_mem {entry : ℕ} (h : ls.Holds owner q name) (hentry : entry ∈ q.entries)
    (cap : ℕ) : ls.exec (.add name owner entry cap) = .ok ls := by
  cases name with
  | blockedUsers | blockedPosts =>
    have hhas := (ListStore.Holds.hasEntry_iff h).mpr hentry
    rw [exec, ListStore.addDequeEntry, if_pos hhas]
    rfl
  | blockedCommunities =>
    have hhas := has_iff.mpr ((BlockedCommunities.Holds.mem_iff h).mp hentry)
    rw [exec, BlockedCommunities.add, if_pos hhas]
    rfl

/-- What a call does to the list it is about, in terms of what the list returns. -/
def Effect (ls ls' : OwnerLists) : ListCall → Prop
  | .add name owner entry maxCap =>
    (entry ∈ ls.list owner name → ls' = ls) ∧
    (entry ∉ ls.list owner name → (ls.list owner name).length < maxCap →
      ls'.list owner name = ls.list owner name ++ [entry]) ∧
    (entry ∉ ls.list owner name → maxCap ≤ (ls.list owner name).length →
      ∃ oldest rest, ls.list owner name = oldest :: rest ∧ oldest ≠ entry ∧
        ls'.list owner name = rest ++ [entry]) ∧
    (ls'.list owner name).length ≤ max maxCap (ls.list owner name).length
  | .remove name owner entry => ls'.list owner name = (ls.list owner name).erase entry

theorem Holds.effect {c : ListCall} (h : ls.Holds c.owner q c.name) (hcap : c.Capped)
    (hexec : ls.exec c = .ok ls') : ls.Effect ls' c := by
  obtain ⟨htakes, hholds, -⟩ := (h.exec hcap).of_eq_ok hexec
  have hlist := h.list_eq
  have hlist' := hholds.list_eq
  cases c with
  | remove name owner entry =>
    show ls'.list owner name = (ls.list owner name).erase entry
    exact hlist'.trans (congrArg (List.erase · entry) hlist.symm)
  | add name owner entry cap =>
    change ls.list owner name = q.entries at hlist
    change ls'.list owner name = (q.add entry cap).entries at hlist'
    have hpush : ls'.list owner name = push cap entry (ls.list owner name) := by
      rw [hlist', hlist]
      by_cases hentry : entry ∈ q.entries
      · rw [OwnerQueue.add_of_mem cap hentry, push_of_mem cap hentry]
      · rw [OwnerQueue.add_of_new cap hentry (htakes.resolve_left hentry)]
    refine ⟨fun hentry => ?_, fun hentry hroom => ?_, fun hentry hover => ?_, ?_⟩
    · rw [hlist] at hentry
      exact Except.ok.inj (hexec.symm.trans (exec_add_of_mem h hentry cap))
    · rw [hpush, push_of_room hentry hroom]
    · rw [hpush]
      exact push_of_full hcap hentry hover
    · rw [hpush]
      exact length_push_le cap entry _

/-- After any additions and removals with caps of at least one, every list is a queue of its
entries in the order they were last put in. A further call does to its list what `Effect` says and
nothing to any other; it fails only when a counter is at its end. -/
theorem bounded_lists (calls : List ListCall) (hcaps : ∀ c ∈ calls, c.Capped) :
    (∀ owner name,
      (run calls).count owner name = ((run calls).stored owner name).size ∧
      (∀ entry seq, ((run calls).stored owner name).get entry = some seq →
        seq < (run calls).next owner name ∧
        ∀ entry', ((run calls).stored owner name).get entry' = some seq → entry' = entry) ∧
      (run calls).list owner name = (queueOf calls owner name).entries) ∧
    (∀ owner pattern seq,
      (run calls).blockedCommunities.entries.has (toLex (owner, toLex (seq, pattern))) = true ↔
        (run calls).blockedCommunities.idx.get (toLex (owner, pattern)) = some seq) ∧
    ∀ c : ListCall, c.Capped → Ensures ((run calls).exec c)
      (fun ls => (run calls).Effect ls c ∧
        ∀ owner name, (owner, name) ≠ (c.owner, c.name) → (run calls).Agree ls owner name)
      (fun _ => (run calls).next c.owner c.name = 2 ^ 64 - 1 ∨
        (run calls).count c.owner c.name = 2 ^ 32 - 1) := by
  have hholds := holds_run hcaps
  refine ⟨fun owner name => ?_, fun owner pattern seq => ?_, fun c hcap => ?_⟩
  · have h := hholds owner name
    refine ⟨h.count_eq.trans h.stamped.size_eq.symm, fun entry seq hget => ?_, h.list_eq⟩
    exact ⟨h.stamped.below entry seq hget, fun entry' hget' => h.stamped.injective hget' hget⟩
  · exact BlockedCommunities.Holds.records (hholds owner .blockedCommunities) pattern seq
  · have h := hholds c.owner c.name
    have hexec := h.exec hcap
    cases hres : (run calls).exec c with
    | ok ls =>
      rw [hres] at hexec
      exact ⟨h.effect hcap hres, hexec.2.2⟩
    | error e =>
      rw [hres] at hexec
      have hfull : (queueOf calls c.owner c.name).Full := by
        by_contra hnot
        refine hexec ?_
        cases c with
        | add name owner entry cap => exact .inr hnot
        | remove name owner entry => exact trivial
      rw [OwnerQueue.Full, ← h.next_eq, ← h.count_eq] at hfull
      exact hfull

/-- The third user is one too many under a cap of two; the first one leaves. -/
theorem bounded_lists_evicts :
    (run [.add .blockedUsers 1 5 2, .add .blockedUsers 1 6 3, .add .blockedUsers 1 7 2]).list 1
      .blockedUsers = [6, 7] :=
  ((bounded_lists
    [.add .blockedUsers 1 5 2, .add .blockedUsers 1 6 3, .add .blockedUsers 1 7 2]
    (by simp [ListCall.Capped])).1 1 .blockedUsers).2.2

end OwnerLists

end MirageNode
