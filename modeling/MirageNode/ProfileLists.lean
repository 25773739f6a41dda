import MirageNode.Profiles

/-!
# Profile lists

The per-entry list helpers of `keeper/keeper.go`: sets with a stored count (followed
users) and deques that drop their oldest entry above a cap (blocked users and posts),
and the blocked-community lists of `keeper/team.go`, which keep an index beside the
ordered entries.
-/

namespace MirageNode

open OrderedStore Fallible

/-! ## 1. Sets and deques -/

/-- One list family: `{prefix}{owner}/{entry}` with the sentinel or the sequence number,
`{prefix}{owner}\x00c` and `{prefix}{owner}\x00s`. -/
structure ListStore where
  entries : OrderedMap (Addr ×ₗ ℕ) ℕ
  counts : OrderedMap Addr ℕ
  seqs : OrderedMap Addr ℕ

namespace ListStore

/-- A family without entries. -/
def empty : ListStore := ⟨.empty, .empty, .empty⟩

/-- `hasSetEntry`. -/
def hasEntry (l : ListStore) (owner : Addr) (entry : ℕ) : Bool :=
  l.entries.has (toLex (owner, entry))

def addSetEntry (l : ListStore) (owner : Addr) (entry : ℕ) : Except ChainError ListStore :=
  if l.hasEntry owner entry then .ok l
  else do
    failIf (l.counts.count owner = 2 ^ 32 - 1) .listCount
    return { l with
      entries := l.entries.set (toLex (owner, entry)) 1
      counts := l.counts.set owner (l.counts.count owner + 1) }

def removeSetEntry (l : ListStore) (owner : Addr) (entry : ℕ) : ListStore :=
  if l.hasEntry owner entry then
    { l with
      entries := l.entries.erase (toLex (owner, entry))
      counts := l.counts.setCount owner (l.counts.count owner - 1) }
  else l

/-- The loop body of `evictLowestSeq`. -/
def lowerSeq (best : Option (ℕ × ℕ)) (e : ℕ × ℕ) : Option (ℕ × ℕ) :=
  match best with
  | none => some e
  | some b => if e.2 < b.2 then some e else best

def evictLowestSeq (l : ListStore) (owner : Addr) : ListStore :=
  match (l.entries.slice owner).entries.foldl lowerSeq none with
  | none => l
  | some e => { l with entries := l.entries.erase (toLex (owner, e.1)) }

def addDequeEntry (l : ListStore) (owner : Addr) (entry maxCap : ℕ) : Except ChainError ListStore :=
  if l.hasEntry owner entry then .ok l
  else do
    let seq := l.seqs.count owner
    let nextSeq ← (checkedAddUint64 seq 1).mapError ChainError.listSequence
    failIf (l.counts.count owner = 2 ^ 32 - 1) .listCount
    let cnt := l.counts.count owner + 1
    let l : ListStore := {
      entries := l.entries.set (toLex (owner, entry)) seq
      counts := l.counts.set owner cnt
      seqs := l.seqs.set owner nextSeq }
    if maxCap > 0 ∧ cnt > maxCap then
      let l := l.evictLowestSeq owner
      return { l with counts := l.counts.setCount owner (cnt - 1) }
    else return l

def deleteAllSetEntries (l : ListStore) (owner : Addr) : ListStore where
  entries := ((l.entries.slice owner).entries.map Prod.fst).foldl
    (fun m e => m.erase (toLex (owner, e))) l.entries
  counts := l.counts.erase owner
  seqs := l.seqs.erase owner

end ListStore

/-! ## 2. Blocked communities -/

/-- The blocked-community lists: `bc|` by sequence, `bci|`, `bcc|` and `bcnext|`. -/
structure BlockedCommunities where
  entries : OrderedMap (Addr ×ₗ ℕ ×ₗ Text) Unit
  idx : OrderedMap (Addr ×ₗ Text) ℕ
  counts : OrderedMap Addr ℕ
  next : OrderedMap Addr ℕ

namespace BlockedCommunities

/-- Lists without entries. -/
def empty : BlockedCommunities := ⟨.empty, .empty, .empty, .empty⟩

/-- `ListBlockedCommunities`. -/
def patterns (b : BlockedCommunities) (owner : Addr) : List Text :=
  (b.entries.slice owner).entries.map fun e => (ofLex e.1).2

/-- `RemoveBlockedCommunity`. -/
def remove (b : BlockedCommunities) (owner : Addr) (pattern : Text) :
    Except ChainError BlockedCommunities :=
  match b.idx.get (toLex (owner, pattern)) with
  | none => .ok b
  | some seq => do
    let counts ← addCheckedU32 b.counts owner (-1)
    return { b with
      entries := b.entries.erase (toLex (owner, toLex (seq, pattern)))
      idx := b.idx.erase (toLex (owner, pattern))
      counts := counts }

/-- The loop body of `evictOldestBlockedCommunity`. -/
def older (best : Option (ℕ × Text)) (e : ℕ × Text) : Option (ℕ × Text) :=
  match best with
  | none => some e
  | some b => if e.1 < b.1 then some e else best

/-- `evictOldestBlockedCommunity`. -/
def evictOldest (b : BlockedCommunities) (owner : Addr) : Except ChainError BlockedCommunities :=
  match ((b.entries.slice owner).entries.map fun e => ofLex e.1).foldl older none with
  | none => .ok b
  | some e => b.remove owner e.2

/-- `AddBlockedCommunity`. -/
def add (b : BlockedCommunities) (owner : Addr) (pattern : Text) (maxCap : ℕ) :
    Except ChainError BlockedCommunities :=
  if b.idx.has (toLex (owner, pattern)) then .ok b
  else do
    failIf (maxCap = 0) .blockCapZero
    let seq := b.next.count owner
    let next ← (checkedAddUint64 seq 1).mapError ChainError.blockSequence
    let counts ← addCheckedU32 b.counts owner 1
    let b : BlockedCommunities := {
      entries := b.entries.set (toLex (owner, toLex (seq, pattern))) ()
      idx := b.idx.set (toLex (owner, pattern)) seq
      counts := counts
      next := b.next.set owner next }
    if counts.count owner > maxCap then b.evictOldest owner else return b

end BlockedCommunities

end MirageNode
