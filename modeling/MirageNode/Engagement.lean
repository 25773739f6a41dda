import MirageNode.CreatorState

/-!
# Posts, votes and engagement records

The part of the `Post`, `Vote` and `Delete` handlers (`module/module.go`) that
writes the creator store, and the recording functions of `keeper/creator.go`. A
subscriber's upvote or direct reply leaves an engagement record in the current
epoch. It can be withdrawn while that epoch is current, and never afterwards.

Whether an actor is an effective subscriber is an argument here; the profile is
not part of the creator store.
-/

namespace MirageNode

open OrderedStore Fallible

/-! ## 1. Recording and withdrawing -/

/-- What `RecordUpvoteEngagement` and `RecordDirectReplyEngagement` do once the
pair is known not to be reserved: write the record and the reservation, unless
the actor is not a subscriber, the target is unknown, deleted or the actor's
own, or the epoch is full. -/
def recordEngagement (p : Params) (paid : Bool) (s : CreatorState) (actor : Addr) (kind : ℕ)
    (target : Hash) (value : Option Hash) (reserve : CreatorState → CreatorState) :
    Except CoreError CreatorState :=
  if paid = false then .ok s
  else match s.posts.get target with
    | none => .ok s
    | some post =>
      if post.author = actor ∨ post.deletedHeight ≠ 0 then .ok s
      else do
        let (s, ce) ← ensureOpenEpoch p s s.clock
        -- a full epoch stays marked open
        if ce.grossRecords ≥ p.maxCreatorEngagementsPerEpoch then return s
        else
          let s := reserve s
          return { s with
            engagements := s.engagements.set (keyEngagement s.clock actor kind target) value
            epochs := s.epochs.set s.clock { ce with grossRecords := ce.grossRecords + 1 } }

section

variable {p : Params} {paid : Bool} {s s' : CreatorState} {actor : Addr} {kind : ℕ} {target : Hash}
  {value : Option Hash} {reserve : CreatorState → CreatorState}

/-- Recording does nothing, finds the epoch full or writes one record. -/
theorem recordEngagement_cases
    (h : recordEngagement p paid s actor kind target value reserve = .ok s') :
    s' = s ∨ ∃ post ce s₁, s.posts.get target = some post ∧ post.author ≠ actor ∧
      getOrNewEpoch p s s.clock = .ok ce ∧ s₁ = { s with openIdx := s.openIdx.set s.clock () } ∧
      (p.maxCreatorEngagementsPerEpoch ≤ ce.grossRecords ∧ s' = s₁ ∨
        ce.grossRecords < p.maxCreatorEngagementsPerEpoch ∧ s' = { reserve s₁ with
          engagements := (reserve s₁).engagements.set
            (keyEngagement (reserve s₁).clock actor kind target) value
          epochs := (reserve s₁).epochs.set (reserve s₁).clock
            { ce with grossRecords := ce.grossRecords + 1 } }) := by
  unfold recordEngagement at h
  split at h
  · exact .inl (Except.ok.inj h).symm
  split at h
  · exact .inl (Except.ok.inj h).symm
  next post hpost =>
  split at h
  · exact .inl (Except.ok.inj h).symm
  next hself =>
  simp only [ensureOpenEpoch, bind_eq_ok, pure_eq_ok] at h
  obtain ⟨⟨s₁, ce⟩, ⟨ce', hce, heq⟩, h⟩ := h
  cases heq
  refine .inr ⟨post, ce, _, hpost, fun heq => hself (.inl heq), hce, rfl, ?_⟩
  split at h
  next hfull => exact .inl ⟨hfull, (Except.ok.inj h).symm⟩
  next hroom => exact .inr ⟨not_le.mp hroom, (Except.ok.inj h).symm⟩

end

/-- Deletes a record of the current epoch and lowers the epoch's record count. -/
def removeEngagement (s : CreatorState) (actor : Addr) (kind : ℕ) (target : Hash) :
    Except CoreError CreatorState := do
  let s := { s with
    engagements := s.engagements.erase (keyEngagement s.clock actor kind target) }
  match s.epochs.get s.clock with
  | none => return s
  | some ce =>
    failIf (ce.grossRecords = 0) .grossRecordsUnderflow
    return { s with
      epochs := s.epochs.set s.clock { ce with grossRecords := ce.grossRecords - 1 } }

def clearOpenUpvote (s : CreatorState) (voter : Addr) (target : Hash) :
    Except CoreError CreatorState :=
  match s.upvoteReserved.get (toLex (voter, target)) with
  | none => .ok s
  | some stored =>
    if stored ≠ s.clock then .ok s
    else removeEngagement
      { s with upvoteReserved := s.upvoteReserved.erase (toLex (voter, target)) }
      voter engagementKindUpvote target

def clearOpenDirectReply (s : CreatorState) (author : Addr) (parent sourceHash : Hash) :
    Except CoreError CreatorState :=
  match s.replyReserved.get (toLex (author, parent)) with
  | none => .ok s
  | some stored =>
    if stored.1 ≠ s.clock then .ok s
    else if stored.2 ≠ sourceHash then .ok s
    else removeEngagement
      { s with replyReserved := s.replyReserved.erase (toLex (author, parent)) }
      author engagementKindDirectReply parent

def recordUpvoteEngagement (p : Params) (paid : Bool) (s : CreatorState) (voter : Addr)
    (target : Hash) (direction : ℤ) : Except CoreError CreatorState :=
  let s := { s with voteDirs := s.voteDirs.set (toLex (voter, target)) direction }
  if direction ≠ 1 then clearOpenUpvote s voter target
  else if s.upvoteReserved.has (toLex (voter, target)) then .ok s
  else recordEngagement p paid s voter engagementKindUpvote target none fun s =>
    { s with upvoteReserved := s.upvoteReserved.set (toLex (voter, target)) s.clock }

def recordDirectReplyEngagement (p : Params) (paid : Bool) (s : CreatorState) (commenter : Addr)
    (parent sourceHash : Hash) : Except CoreError CreatorState :=
  if s.replyReserved.has (toLex (commenter, parent)) then .ok s
  else recordEngagement p paid s commenter engagementKindDirectReply parent (some sourceHash)
    fun s => { s with
      replyReserved := s.replyReserved.set (toLex (commenter, parent)) (s.clock, sourceHash) }

/-! ## 2. Posts -/

/-- The creator-store part of the `Post` handler: a root post in `community`, or
a reply to `target`. `hash` is the transaction's. -/
def post (p : Params) (paid : Bool) (s : CreatorState) (owner : Addr) (hash : Hash)
    (target : Option Hash) (community : Slug) : Except CoreError CreatorState :=
  match target with
  | none => .ok { s with posts := s.posts.set hash ⟨owner, some community, none, 0, 0⟩ }
  | some parent =>
    match s.posts.get parent with
    | none => .error .legacyThreadReadOnly
    | some above =>
      if above.community = none then .error .legacyThreadReadOnly
      else recordDirectReplyEngagement p paid
        { s with posts := s.posts.set hash ⟨owner, above.community, some parent, 0, 0⟩ }
        owner parent hash

/-- The creator-store part of the `Delete` handler, called by the author or by
governance. -/
def deletePost (height : ℤ) (s : CreatorState) (owner : Addr) (byGovernance : Bool)
    (target : Hash) : Except CoreError CreatorState :=
  match s.posts.get target with
  | none => .ok s
  | some post => do
    failIf (byGovernance = false ∧ post.author ≠ owner) .notPostAuthor
    let s := { s with
      posts := s.posts.set target
        { post with deletedHeight := height, deletedEpoch := s.clock } }
    match post.parentHash with
    | none => return s
    | some parent => clearOpenDirectReply s post.author parent target

end MirageNode
