import MirageNode.Lib.Coalesce
import MirageNode.Lib.Fallible
import Mathlib.Data.Char
import Mathlib.Data.List.Dedup
import Mathlib.Data.List.Lex
import Mathlib.Data.List.Pairwise

/-!
# Gaps in the indexed history

`_merge_history_gaps` and `_record_history_gap` of `indexer/main.py`. The indexer keeps a list
of block ranges that it will never have indexed, each with the reasons for it. Every recorded
gap is appended to the stored list, which is then sorted and coalesced again; the reasons of a
merged range are one text, joined by `|`.

The ranges are right after every recording, and so is the set of the reasons in each text
(`GapBooks`). The text itself may not be. Merging takes the text of the range kept last apart and
adds the next range's text as one reason, although that may be a joined text itself, from an
earlier merge. So a range with several reasons that is absorbed by one that starts before it can
leave a reason twice, or out of order (`joined_reasons_repeat`). Where the new gap joins no such
range (`JoinsSingles`) each reason stands once and in order (`Gap.Tidy`), and the gaps leave no
choice (`GapBooks.unique`).
-/

namespace MirageNode

open Fallible Coalesce List

/-! ## 1. Recording a gap -/

/-- A reason, or several joined by `|`. -/
abbrev Reason := List Char

/-- A record of the list in `meta.history_gaps`. -/
structure Gap where
  start : ℤ
  stop : ℤ
  reason : Reason
deriving DecidableEq, Repr

/-- The errors of the two functions. -/
inductive GapError where
  | invalidRecord (start stop : ℤ)
  | endPrecedesStart (stop start : ℤ)
deriving DecidableEq, Repr

/-- `sorted(reasons)` of the set of the reasons listed. -/
def sortedReasons (reasons : List Reason) : List Reason := reasons.dedup.insertionSort (· ≤ ·)

/-- `"|".join(sorted(reasons))`. -/
def joinReasons (reasons : List Reason) : Reason := ['|'].intercalate (sortedReasons reasons)

/-- `[r for r in reason.split("|") if r]`. -/
def splitReasons (reason : Reason) : List Reason := (reason.splitOn '|').filter (· ≠ [])

/-- What the range merged last does with the next one. -/
def Gap.absorb (last gap : Gap) : Option Gap :=
  if gap.start ≤ last.stop + 1 then
    some
      { start := last.start
        stop := max last.stop gap.stop
        reason :=
          if gap.reason ≠ last.reason then joinReasons (splitReasons last.reason ++ [gap.reason])
          else last.reason }
  else none

/-- The first loop of `_merge_history_gaps`. -/
def normalizeGap (gap : Gap) : Except GapError Gap := do
  failIf (gap.start < 1 ∨ gap.stop < gap.start) (.invalidRecord gap.start gap.stop)
  return { gap with reason := if gap.reason = [] then "unknown".toList else gap.reason }

/-- The order of `normalized.sort(key=lambda g: (g["start"], g["end"]))`. -/
def Gap.Before (a b : Gap) : Prop := a.start < b.start ∨ a.start = b.start ∧ a.stop ≤ b.stop

instance : DecidableRel Gap.Before := fun a b =>
  inferInstanceAs (Decidable (a.start < b.start ∨ a.start = b.start ∧ a.stop ≤ b.stop))

def mergeHistoryGaps (gaps : List Gap) : Except GapError (List Gap) := do
  let normalized ← gaps.mapM normalizeGap
  return ((normalized.insertionSort Gap.Before).foldl (keep Gap.absorb) []).reverse

/-- `meta.history_gaps` and `meta.history_complete`. -/
structure HistoryMeta where
  gaps : List Gap
  complete : Bool
deriving DecidableEq, Repr

def recordHistoryGap (m : HistoryMeta) (start stop : ℤ) (reason : Reason) :
    Except GapError HistoryMeta := do
  failIf (stop < start) (.endPrecedesStart stop start)
  let merged ← mergeHistoryGaps (m.gaps ++ [⟨start, stop, reason⟩])
  return ⟨merged, false⟩

/-! ## 2. Reasons as sets -/

theorem mem_sortedReasons {reasons : List Reason} {r : Reason} :
    r ∈ sortedReasons reasons ↔ r ∈ reasons := by
  rw [sortedReasons, (perm_insertionSort _ _).mem_iff, mem_dedup]

/-- Only the set of the reasons counts. -/
theorem sortedReasons_congr {l l' : List Reason} (h : ∀ r, r ∈ l ↔ r ∈ l') :
    sortedReasons l = sortedReasons l' := by
  have hperm : (sortedReasons l).Perm (sortedReasons l') := by
    refine (perm_insertionSort _ _).trans (.trans ?_ (perm_insertionSort _ _).symm)
    rw [perm_ext_iff_of_nodup (nodup_dedup l) (nodup_dedup l')]
    simpa using h
  exact hperm.eq_of_pairwise (fun a b _ _ => le_antisymm) (pairwise_insertionSort _ _)
    (pairwise_insertionSort _ _)

theorem joinReasons_congr {l l' : List Reason} (h : ∀ r, r ∈ l ↔ r ∈ l') :
    joinReasons l = joinReasons l' := by
  rw [joinReasons, joinReasons, sortedReasons_congr h]

/-- A reason that a joined text can hold. -/
def PlainReason (r : Reason) : Prop := r ≠ [] ∧ '|' ∉ r

/-- The parts of a text are single reasons. -/
theorem plain_of_mem_splitReasons {t r : Reason} (h : r ∈ splitReasons t) : PlainReason r := by
  obtain ⟨hmem, hne⟩ := mem_filter.mp h
  refine ⟨of_decide_eq_true hne, ?_⟩
  clear h hne
  induction t generalizing r with
  | nil => simp_all
  | cons c t ih =>
    rw [splitOn_cons_eq_if_modifyHead] at hmem
    split at hmem
    · rcases mem_cons.mp hmem with rfl | hmem
      · exact not_mem_nil
      · exact ih hmem
    · next hc =>
      cases hsplit : t.splitOn '|' with
      | nil => simp [hsplit] at hmem
      | cons a l => grind [List.modifyHead]

theorem splitReasons_of_plain {r : Reason} (h : PlainReason r) : splitReasons r = [r] := by
  rw [splitReasons, splitOn_eq_singleton h.2]
  exact filter_eq_self.mpr (by simpa using h.1)

/-- A joined text can be taken apart again. -/
theorem splitReasons_joinReasons {l : List Reason} (hplain : ∀ r ∈ l, PlainReason r)
    (hne : l ≠ []) : splitReasons (joinReasons l) = sortedReasons l := by
  have hplain' : ∀ r ∈ sortedReasons l, PlainReason r := fun r hr =>
    hplain r (mem_sortedReasons.mp hr)
  have hne' : sortedReasons l ≠ [] := by
    obtain ⟨r, hr⟩ := exists_mem_of_ne_nil l hne
    exact ne_nil_of_mem (mem_sortedReasons.mpr hr)
  rw [splitReasons, joinReasons, splitOn_intercalate '|' (fun r hr => (hplain' r hr).2) hne']
  exact filter_eq_self.mpr fun r hr => decide_eq_true (hplain' r hr).1

/-- The parts of a joined text are the parts of the texts that were joined. -/
theorem mem_splitReasons_joinReasons {l : List Reason} {r : Reason} :
    r ∈ splitReasons (joinReasons l) ↔ ∃ t ∈ l, r ∈ splitReasons t := by
  have hjoined : ∀ ts : List Reason,
      r ∈ splitReasons (['|'].intercalate ts) ↔ ∃ t ∈ ts, r ∈ splitReasons t := by
    intro ts
    induction ts with
    | nil => simp [splitReasons]
    | cons t ts ih =>
      cases ts with
      | nil => simp
      | cons t' ts =>
        rw [exists_mem_cons_iff, ← ih, intercalate_cons_cons, append_assoc,
          singleton_append, splitReasons, splitOn_append_cons_self, filter_append]
        exact mem_append
  rw [joinReasons, hjoined]
  simp only [mem_sortedReasons]

/-! ## 3. Merging two ranges -/

def Gap.Contains (g : Gap) (n : ℤ) : Prop := g.start ≤ n ∧ n ≤ g.stop

/-- A gap as the callers record it. -/
structure Gap.Recordable (g : Gap) : Prop where
  start_pos : 1 ≤ g.start
  start_le : g.start ≤ g.stop
  plain : PlainReason g.reason

theorem absorb_gap_eq_none {last gap : Gap} :
    last.absorb gap = none ↔ last.stop + 1 < gap.start := by
  unfold Gap.absorb
  split <;> simp_all

section Absorb

variable {last gap merged : Gap}

theorem absorb_gap_cases (h : last.absorb gap = some merged) :
    gap.start ≤ last.stop + 1 ∧ merged.start = last.start ∧
      merged.stop = max last.stop gap.stop ∧
      merged.reason = if gap.reason ≠ last.reason then
        joinReasons (splitReasons last.reason ++ [gap.reason]) else last.reason := by
  unfold Gap.absorb at h
  split at h
  next hle =>
    obtain rfl := Option.some.inj h
    exact ⟨hle, rfl, rfl, rfl⟩
  next => cases h

/-- A merged text has the reasons of both texts. -/
theorem mem_splitReasons_absorb (h : last.absorb gap = some merged) {r : Reason} :
    r ∈ splitReasons merged.reason ↔
      r ∈ splitReasons last.reason ∨ r ∈ splitReasons gap.reason := by
  rw [(absorb_gap_cases h).2.2.2]
  split
  · -- the parts of the last text are single reasons, so they are their own parts
    have hparts : (∃ t ∈ splitReasons last.reason, r ∈ splitReasons t) ↔
        r ∈ splitReasons last.reason := by
      constructor
      · rintro ⟨t, ht, hr⟩
        rw [splitReasons_of_plain (plain_of_mem_splitReasons ht), mem_singleton] at hr
        exact hr ▸ ht
      · intro hr
        exact ⟨r, hr, by simp [splitReasons_of_plain (plain_of_mem_splitReasons hr)]⟩
    rw [mem_splitReasons_joinReasons, ← hparts]
    simp only [mem_append, mem_singleton, or_and_right, exists_or, exists_eq_left]
  · next hsame => rw [not_not.mp hsame, or_self]

/-- Each reason of the text stands once, and they are in order. -/
def Gap.Tidy (s : Gap) : Prop := s.reason = joinReasons (splitReasons s.reason)

theorem tidy_of_plain {s : Gap} (h : PlainReason s.reason) : s.Tidy := by
  rw [Gap.Tidy, splitReasons_of_plain h]
  simp [joinReasons, sortedReasons]

/-- A range that absorbs one with a single reason has a tidy text. -/
theorem tidy_absorb (hgap : PlainReason gap.reason) (h : last.absorb gap = some merged) :
    merged.Tidy := by
  obtain ⟨-, -, -, hreason⟩ := absorb_gap_cases h
  by_cases hsame : gap.reason = last.reason
  · rw [if_neg (not_not.mpr hsame), ← hsame] at hreason
    exact tidy_of_plain (hreason ▸ hgap)
  · have hplain : ∀ r ∈ splitReasons last.reason ++ [gap.reason], PlainReason r := by
      intro r hr
      rcases mem_append.mp hr with hr | hr
      · exact plain_of_mem_splitReasons hr
      · exact mem_singleton.mp hr ▸ hgap
    rw [if_pos hsame] at hreason
    rw [Gap.Tidy, hreason, splitReasons_joinReasons hplain (by simp)]
    exact joinReasons_congr fun r => mem_sortedReasons.symm

/-- The range `s` makes up for the range `x`: it has its blocks and its reasons. -/
def Gap.Within (x s : Gap) : Prop :=
  s.start ≤ x.start ∧ x.stop ≤ s.stop ∧ ∀ r ∈ splitReasons x.reason, r ∈ splitReasons s.reason

instance : Std.Refl Gap.Within := ⟨fun _ => ⟨le_rfl, le_rfl, fun _ hr => hr⟩⟩

instance : IsTrans Gap Gap.Within := ⟨fun _ _ _ h h' =>
  ⟨h'.1.trans h.1, h.2.1.trans h'.2.1, fun r hr => h'.2.2 r (h.2.2 r hr)⟩⟩

theorem within_absorb (hle : last.start ≤ gap.start) (h : last.absorb gap = some merged) :
    last.Within merged ∧ gap.Within merged := by
  obtain ⟨-, hstart, hstop, -⟩ := absorb_gap_cases h
  rw [Gap.Within, Gap.Within, hstart, hstop]
  exact ⟨⟨le_rfl, le_max_left _ _, fun r hr => (mem_splitReasons_absorb h).mpr (.inl hr)⟩,
    hle, le_max_right _ _, fun r hr => (mem_splitReasons_absorb h).mpr (.inr hr)⟩

/-- What the stored range `s` says, the recorded gaps `G` say. -/
structure Supported (G : List Gap) (s : Gap) : Prop where
  start_pos : 1 ≤ s.start
  start_le : s.start ≤ s.stop
  split_ne_nil : splitReasons s.reason ≠ []
  covered : ∀ n, s.Contains n → ∃ g ∈ G, g.Contains n
  named : ∀ r ∈ splitReasons s.reason, ∃ g ∈ G, (s.start ≤ g.start ∧ g.stop ≤ s.stop) ∧ g.reason = r

namespace Supported

variable {G : List Gap} {s : Gap}

theorem one (h : s.Recordable) : Supported [s] s where
  start_pos := h.start_pos
  start_le := h.start_le
  split_ne_nil := by simp [splitReasons_of_plain h.plain]
  covered n hn := ⟨s, by simp, hn⟩
  named r hr := by
    rw [splitReasons_of_plain h.plain, mem_singleton] at hr
    exact ⟨s, by simp, ⟨le_rfl, le_rfl⟩, hr.symm⟩

theorem mono {G' : List Gap} (h : Supported G s) (hsub : ∀ g ∈ G, g ∈ G') : Supported G' s where
  start_pos := h.start_pos
  start_le := h.start_le
  split_ne_nil := h.split_ne_nil
  covered n hn := (h.covered n hn).imp fun g hg => ⟨hsub g hg.1, hg.2⟩
  named r hr := (h.named r hr).imp fun g hg => ⟨hsub g hg.1, hg.2⟩

theorem reason_ne_nil (h : Supported G s) : s.reason ≠ [] :=
  fun hnil => h.split_ne_nil (by rw [hnil]; rfl)

theorem normalize (h : Supported G s) : normalizeGap s = .ok s := by
  have hrange : ¬ (s.start < 1 ∨ s.stop < s.start) := by
    have := h.start_pos
    have := h.start_le
    omega
  rw [normalizeGap, failIf_of_not _ hrange, ok_bind, if_neg h.reason_ne_nil]
  rfl

theorem absorb (hlast : Supported G last) (hgap : Supported G gap)
    (hle : last.start ≤ gap.start) (h : last.absorb gap = some merged) : Supported G merged := by
  obtain ⟨htouch, hstart, hstop, -⟩ := absorb_gap_cases h
  obtain ⟨hin, hin'⟩ := within_absorb hle h
  refine ⟨hstart ▸ hlast.start_pos, ?_, ?_, fun n hn => ?_, fun r hr => ?_⟩
  · exact hin.1.trans (hlast.start_le.trans hin.2.1)
  · obtain ⟨r, hr⟩ := exists_mem_of_ne_nil _ hlast.split_ne_nil
    exact ne_nil_of_mem (hin.2.2 r hr)
  · have hboth : last.Contains n ∨ gap.Contains n := by
      simp only [Gap.Contains, hstart, hstop] at hn ⊢
      omega
    exact hboth.elim (hlast.covered n) (hgap.covered n)
  · rcases (mem_splitReasons_absorb h).mp hr with hr | hr
    · obtain ⟨g, hg, ⟨hfrom, hto⟩, rfl⟩ := hlast.named r hr
      exact ⟨g, hg, ⟨hin.1.trans hfrom, hto.trans hin.2.1⟩, rfl⟩
    · obtain ⟨g, hg, ⟨hfrom, hto⟩, rfl⟩ := hgap.named r hr
      exact ⟨g, hg, ⟨hin'.1.trans hfrom, hto.trans hin'.2.1⟩, rfl⟩

end Supported

end Absorb

/-! ## 4. The stored list -/

/-- The second range starts after the end of the first, and is not adjacent to it. -/
def Gap.Apart (a b : Gap) : Prop := a.stop + 1 < b.start

/-- The list stored after the gaps `G` were recorded: sorted ranges that neither meet nor touch,
say nothing that no gap of `G` says, and make up for every gap of `G`. -/
structure GapBooks (G S : List Gap) : Prop where
  recordable : ∀ g ∈ G, g.Recordable
  apart : S.Pairwise Gap.Apart
  supported : ∀ s ∈ S, Supported G s
  within : ∀ g ∈ G, ∃ s ∈ S, g.Within s

theorem GapBooks.nil : GapBooks [] [] := ⟨nofun, .nil, nofun, nofun⟩

theorem before_gap_total (a b : Gap) : a.Before b ∨ b.Before a := by
  unfold Gap.Before
  omega

theorem before_gap_trans {a b c : Gap} (hab : a.Before b) (hbc : b.Before c) : a.Before c := by
  unfold Gap.Before at *
  omega

instance : Std.Total Gap.Before := ⟨before_gap_total⟩

instance : IsTrans Gap Gap.Before := ⟨fun _ _ _ => before_gap_trans⟩

theorem sorted_gap_starts (gaps : List Gap) :
    (gaps.insertionSort Gap.Before).Pairwise fun a b => a.start ≤ b.start := by
  refine (pairwise_insertionSort Gap.Before gaps).imp fun {a b} h => ?_
  unfold Gap.Before at h
  omega

/-- Of the stored ranges, those that sort after the new gap and that it reaches have one reason. -/
def JoinsSingles (stored : List Gap) (g : Gap) : Prop :=
  ∀ s ∈ stored, ¬ s.Before g → s.start ≤ g.stop + 1 → '|' ∉ s.reason

instance decidableJoinsSingles (stored : List Gap) (g : Gap) : Decidable (JoinsSingles stored g) :=
  inferInstanceAs (Decidable (∀ s ∈ stored, ¬ s.Before g → s.start ≤ g.stop + 1 → '|' ∉ s.reason))

/-- The new gap takes its place in the stored list, after the ranges that sort before it. -/
theorem insertionSort_concat {S : List Gap} (hsorted : S.Pairwise Gap.Before) (g : Gap) :
    ∃ A B, S = A ++ B ∧ (S ++ [g]).insertionSort Gap.Before = A ++ g :: B ∧
      (∀ a ∈ A, a.Before g) ∧ ∀ b ∈ B, ¬ b.Before g := by
  induction S with
  | nil => exact ⟨[], [], rfl, rfl, nofun, nofun⟩
  | cons s S ih =>
    obtain ⟨hs, hS⟩ := pairwise_cons.mp hsorted
    obtain ⟨A, B, rfl, hsort, hA, hB⟩ := ih hS
    rw [cons_append, insertionSort_cons, hsort]
    by_cases hbefore : s.Before g
    · refine ⟨s :: A, B, rfl, ?_, forall_mem_cons.mpr ⟨hbefore, hA⟩, hB⟩
      cases A with
      | nil => exact orderedInsert_cons_of_le _ _ hbefore
      | cons a A => exact orderedInsert_cons_of_le _ _ (hs a mem_cons_self)
    · obtain rfl : A = [] := by
        refine eq_nil_iff_forall_not_mem.mpr fun a ha => hbefore ?_
        exact before_gap_trans (hs a (mem_append_left B ha)) (hA a ha)
      refine ⟨[], s :: B, rfl, ?_, nofun, forall_mem_cons.mpr ⟨hbefore, hB⟩⟩
      rw [nil_append, orderedInsert_cons, if_neg hbefore]
      cases B with
      | nil => rfl
      | cons b B => rw [orderedInsert_cons_of_le _ _ (hs b mem_cons_self)]; rfl

section Books

variable {G G' S S' : List Gap} (h : GapBooks G S)

include h

/-- A range that an earlier one of the sorted list reaches is the new gap, or has one reason. -/
theorem GapBooks.plain_of_near {g : Gap} (hg : g.Recordable) (hjoins : JoinsSingles S g) :
    ((S ++ [g]).insertionSort Gap.Before).Pairwise fun a x =>
      x.start ≤ a.stop + 1 → PlainReason x.reason := by
  have hbefore : S.Pairwise Gap.Before := h.apart.imp_of_mem fun {a b} ha _ hab => by
    have := (h.supported a ha).start_le
    unfold Gap.Apart at hab
    exact .inl (by omega)
  obtain ⟨A, B, hAB, hsort, -, hB⟩ := insertionSort_concat hbefore g
  obtain ⟨hA, hBp, hcross⟩ := pairwise_append.mp (hAB ▸ h.apart)
  have hfar : ∀ a x : Gap, a.Apart x → x.start ≤ a.stop + 1 → PlainReason x.reason :=
    fun a x hax hnear => absurd hnear (not_le.mpr hax)
  rw [hsort, pairwise_append, pairwise_cons]
  refine ⟨hA.imp (hfar _ _), ⟨fun b hb hnear => ?_, hBp.imp (hfar _ _)⟩, fun a ha x hx => ?_⟩
  · have hmem : b ∈ S := hAB ▸ mem_append_right A hb
    exact ⟨(h.supported b hmem).reason_ne_nil, hjoins b hmem (hB b hb) hnear⟩
  · rcases mem_cons.mp hx with rfl | hx
    · exact fun _ => hg.plain
    · exact hfar a x (hcross a ha x hx)

/-- One more gap is recorded. -/
theorem GapBooks.record {complete : Bool} {g : Gap} (hg : g.Recordable) :
    ∃ m, recordHistoryGap ⟨S, complete⟩ g.start g.stop g.reason = .ok m ∧
      GapBooks (G ++ [g]) m.gaps ∧
      (JoinsSingles S g → (∀ s ∈ S, s.Tidy) → ∀ s ∈ m.gaps, s.Tidy) := by
  let sorted := (S ++ [g]).insertionSort Gap.Before
  have hsame : ∀ {x}, x ∈ sorted ↔ x ∈ S ++ [g] := (perm_insertionSort _ _).mem_iff
  have hstarts := sorted_gap_starts (S ++ [g])
  have hall : ∀ s ∈ S ++ [g], Supported (G ++ [g]) s := by
    intro s hs
    rcases mem_append.mp hs with hs | hs
    · exact (h.supported s hs).mono fun _ => mem_append_left [g]
    · rw [mem_singleton.mp hs]
      exact (Supported.one hg).mono fun _ => mem_append_right G
  have hrecord : recordHistoryGap ⟨S, complete⟩ g.start g.stop g.reason =
      .ok ⟨coalesce Gap.absorb sorted, false⟩ := by
    rw [recordHistoryGap, failIf_of_not _ (not_lt.mpr hg.start_le), ok_bind]
    show mergeHistoryGaps (S ++ [g]) >>= _ = _
    rw [mergeHistoryGaps, mapM_eq_ok_self fun s hs => (hall s hs).normalize, ok_bind, foldl_keep]
    rfl
  have hstart : ∀ a x b, Gap.absorb a x = some b → b.start = a.start :=
    fun a x b hab => (absorb_gap_cases hab).2.1
  -- a range that the merged one reaches was reached by the further one of the two
  have hnear : ∀ a x b, Gap.absorb a x = some b → x.start ≤ a.stop + 1 ∧
      ∀ z : Gap, z.start ≤ b.stop + 1 → z.start ≤ a.stop + 1 ∨ z.start ≤ x.stop + 1 := by
    intro a x b hab
    obtain ⟨htouch, -, hstop, -⟩ := absorb_gap_cases hab
    refine ⟨htouch, fun z hz => ?_⟩
    rw [hstop] at hz
    omega
  refine ⟨_, hrecord, ⟨?_, ?_, ?_, fun g' hg' => ?_⟩, fun hjoins htidy => ?_⟩
  · exact forall_mem_append.mpr ⟨h.recordable, by simpa using hg⟩
  · exact coalesce_pairwise hstart
      (fun a x z hab _ hxz => (absorb_gap_eq_none.mp hab).trans_le hxz) hstarts
  · exact coalesce_forall hstart hnear
      (fun a x b ha hx hle _ hab => ha.absorb hx hle hab) (fun x hx => hall x (hsame.mp hx))
      hstarts (pairwise_of_forall fun _ _ _ => trivial)
  · obtain ⟨x, hx, hin⟩ : ∃ x ∈ S ++ [g], g'.Within x := by
      rcases mem_append.mp hg' with hg' | hg'
      · obtain ⟨s, hs, hin⟩ := h.within g' hg'
        exact ⟨s, mem_append_left [g] hs, hin⟩
      · rw [mem_singleton.mp hg']
        exact ⟨g, by simp, refl_of _ g⟩
    obtain ⟨s, hs, hin'⟩ := coalesce_exists hstart (fun a x b => within_absorb) hstarts x
      (hsame.mpr hx)
    exact ⟨s, hs, trans_of _ hin hin'⟩
  · refine coalesce_forall hstart hnear (fun a x b _ _ _ hfit hab => tidy_absorb hfit hab)
      (fun x hx => ?_) hstarts (h.plain_of_near hg hjoins)
    rcases mem_append.mp (hsame.mp hx) with hx | hx
    · exact htidy x hx
    · rw [mem_singleton.mp hx]
      exact tidy_of_plain hg.plain

namespace GapBooks

/-- The stored ranges cover what the recorded gaps cover. -/
theorem covers (n : ℤ) : (∃ s ∈ S, s.Contains n) ↔ ∃ g ∈ G, g.Contains n := by
  constructor
  · rintro ⟨s, hs, hn⟩
    exact (h.supported s hs).covered n hn
  · rintro ⟨g, hg, hfrom, hto⟩
    obtain ⟨s, hs, hstart, hstop, -⟩ := h.within g hg
    exact ⟨s, hs, hstart.trans hfrom, hto.trans hstop⟩

/-- Two stored ranges that have, or touch, a common block are one. -/
theorem eq_of_near {s t : Gap} (hs : s ∈ S) (ht : t ∈ S)
    (hst : s.start ≤ t.stop + 1) (hts : t.start ≤ s.stop + 1) : s = t := by
  by_contra hne
  have hapart : s.Apart t ∨ t.Apart s := by
    have hsym : S.Pairwise fun a b => a.Apart b ∨ b.Apart a := h.apart.imp .inl
    have : Std.Symm fun a b : Gap => a.Apart b ∨ b.Apart a := ⟨fun _ _ => Or.symm⟩
    exact hsym.forall hs ht hne
  unfold Gap.Apart at hapart
  omega

/-- The reasons of a stored range are those of the recorded gaps inside it. -/
theorem mem_reasons {s : Gap} (hs : s ∈ S) (r : Reason) :
    r ∈ splitReasons s.reason ↔
      r ∈ (G.filter fun g => s.start ≤ g.start ∧ g.stop ≤ s.stop).map Gap.reason := by
  simp only [mem_map, mem_filter, decide_eq_true_eq, and_assoc]
  constructor
  · intro hr
    obtain ⟨g, hg, ⟨hfrom, hto⟩, heq⟩ := (h.supported s hs).named r hr
    exact ⟨g, hg, hfrom, hto, heq⟩
  · rintro ⟨g, hg, hfrom, hto, rfl⟩
    -- the range that makes up for the gap meets this one, so it is this one
    obtain ⟨t, ht, hstart, hstop, hreasons⟩ := h.within g hg
    have hle := (h.recordable g hg).start_le
    obtain rfl : s = t := h.eq_of_near hs ht (by omega) (by omega)
    exact hreasons g.reason (by simp [splitReasons_of_plain (h.recordable g hg).plain])

/-- In a tidy text they stand once and in order. -/
theorem reasons {s : Gap} (hs : s ∈ S) (htidy : s.Tidy) :
    splitReasons s.reason = sortedReasons
      ((G.filter fun g => s.start ≤ g.start ∧ g.stop ≤ s.stop).map Gap.reason) :=
  calc splitReasons s.reason
      = splitReasons (joinReasons (splitReasons s.reason)) := congrArg splitReasons htidy
    _ = sortedReasons (splitReasons s.reason) :=
      splitReasons_joinReasons (fun _ => plain_of_mem_splitReasons) (h.supported s hs).split_ne_nil
    _ = _ := sortedReasons_congr (h.mem_reasons hs)

/-- The block before a stored range is not covered, nor is the block after it. -/
theorem not_covered_beside {s : Gap} (hs : s ∈ S) {n : ℤ}
    (hn : n = s.start - 1 ∨ n = s.stop + 1) : ¬ ∃ g ∈ G, g.Contains n := by
  rw [← h.covers]
  rintro ⟨t, ht, htn⟩
  have hle := (h.supported s hs).start_le
  unfold Gap.Contains at htn
  obtain rfl : s = t := h.eq_of_near hs ht (by omega) (by omega)
  omega

/-- The recorded gaps leave no choice of the ranges and of the reasons of each, whatever their
order. -/
theorem exists_same (h' : GapBooks G' S') (hsame : ∀ g, g ∈ G ↔ g ∈ G') {s : Gap} (hs : s ∈ S) :
    ∃ t ∈ S', s.start = t.start ∧ s.stop = t.stop ∧
      ∀ r, r ∈ splitReasons s.reason ↔ r ∈ splitReasons t.reason := by
  have hle := (h.supported s hs).start_le
  have hcovers : ∀ n, (∃ g ∈ G, g.Contains n) ↔ ∃ g ∈ G', g.Contains n := fun n => by
    simp only [hsame]
  -- a range of the other list has the first block of this one
  obtain ⟨t, ht, htn⟩ := (h'.covers s.start).mpr
    ((hcovers s.start).mp ((h.covers s.start).mp ⟨s, hs, le_rfl, hle⟩))
  have htle := (h'.supported t ht).start_le
  have inside {n : ℤ} (hn : t.Contains n) : ∃ g ∈ G, g.Contains n :=
    (hcovers n).mpr ((h'.covers n).mp ⟨t, ht, hn⟩)
  have inside' {n : ℤ} (hn : s.Contains n) : ∃ g ∈ G', g.Contains n :=
    (hcovers n).mp ((h.covers n).mp ⟨s, hs, hn⟩)
  unfold Gap.Contains at inside inside' htn
  -- neither range can end where the other goes on
  have hstart : s.start = t.start := by
    by_contra hne
    exact h.not_covered_beside hs (.inl rfl) (inside (by omega))
  have hstop : s.stop = t.stop := by
    rcases lt_trichotomy s.stop t.stop with hlt | heq | hgt
    · exact absurd (inside (n := s.stop + 1) (by omega)) (h.not_covered_beside hs (.inr rfl))
    · exact heq
    · exact absurd (inside' (n := t.stop + 1) (by omega)) (h'.not_covered_beside ht (.inr rfl))
  refine ⟨t, ht, hstart, hstop, fun r => ?_⟩
  rw [h.mem_reasons hs, h'.mem_reasons ht, hstart, hstop]
  simp only [mem_map, mem_filter, hsame]

theorem subset (h' : GapBooks G' S') (hsame : ∀ g, g ∈ G ↔ g ∈ G') (htidy : ∀ s ∈ S, s.Tidy)
    (htidy' : ∀ s ∈ S', s.Tidy) {s : Gap} (hs : s ∈ S) : s ∈ S' := by
  obtain ⟨t, ht, hstart, hstop, hparts⟩ := h.exists_same h' hsame hs
  have htext : s.reason = t.reason :=
    (htidy s hs).trans ((joinReasons_congr hparts).trans (htidy' t ht).symm)
  obtain rfl : s = t := by
    cases s
    cases t
    simp_all
  exact ht

/-- A stored list of tidy ranges is determined by the gaps that were recorded. -/
theorem unique (h' : GapBooks G' S') (hsame : ∀ g, g ∈ G ↔ g ∈ G') (htidy : ∀ s ∈ S, s.Tidy)
    (htidy' : ∀ s ∈ S', s.Tidy) : S = S' := by
  have hlt : ∀ {G S}, GapBooks G S → S.Pairwise fun a b => a.start < b.start :=
    fun hb => hb.apart.imp_of_mem fun {a b} ha _ hab => by
      have := (hb.supported a ha).start_le
      unfold Gap.Apart at hab
      omega
  have hnodup : ∀ {G S}, GapBooks G S → S.Nodup :=
    fun hb => (hlt hb).imp fun hab => ne_of_apply_ne Gap.start hab.ne
  have hperm : S.Perm S' := by
    rw [perm_ext_iff_of_nodup (hnodup h) (hnodup h')]
    exact fun s => ⟨h.subset h' hsame htidy htidy',
      h'.subset h (fun g => (hsame g).symm) htidy' htidy⟩
  exact hperm.eq_of_pairwise (fun _ _ _ _ hab hba => absurd hab hba.asymm) (hlt h) (hlt h')

end GapBooks

end Books

/-! ## 5. Runs -/

/-- Gaps `G` were recorded one after the other, starting with an empty list, and `m` is stored.
Each of them met `cond` together with the list stored before it. -/
inductive GapRun (cond : List Gap → Gap → Prop) : List Gap → HistoryMeta → Prop
  | start (complete : Bool) : GapRun cond [] ⟨[], complete⟩
  | record {G : List Gap} {m m' : HistoryMeta} {g : Gap} : GapRun cond G m → g.Recordable →
      cond m.gaps g → recordHistoryGap m g.start g.stop g.reason = .ok m' →
      GapRun cond (G ++ [g]) m'

theorem GapRun.books {cond : List Gap → Gap → Prop} {G : List Gap} {m : HistoryMeta}
    (h : GapRun cond G m) : GapBooks G m.gaps := by
  induction h with
  | start => exact .nil
  | record _ hg _ hrecord ih =>
    obtain ⟨m', hm', hbooks, -⟩ := ih.record hg
    rw [hrecord] at hm'
    cases hm'
    exact hbooks

theorem GapRun.tidy {G : List Gap} {m : HistoryMeta} (h : GapRun JoinsSingles G m) :
    ∀ s ∈ m.gaps, s.Tidy := by
  induction h with
  | start => exact nofun
  | record hrun hg hjoins hrecord ih =>
    obtain ⟨m', hm', -, htidy⟩ := hrun.books.record hg
    rw [hrecord] at hm'
    cases hm'
    exact htidy hjoins ih

/-- Whatever was recorded, the next gap is recorded too, the books are right, and another order of
the same gaps gives the same ranges with the same reasons. If no new gap joined a range of several
reasons that sorts after it, each reason stands once and in order, and another such order of the
same gaps gives the same list. -/
theorem history_gaps_kept {G : List Gap} {m : HistoryMeta} (h : GapRun (fun _ _ => True) G m) :
    (∀ g : Gap, g.Recordable → ∃ m', recordHistoryGap m g.start g.stop g.reason = .ok m') ∧
    (∀ s ∈ m.gaps, s.start ≤ s.stop) ∧ m.gaps.Pairwise (fun a b => a.stop + 1 < b.start) ∧
    (∀ n, (∃ s ∈ m.gaps, s.Contains n) ↔ ∃ g ∈ G, g.Contains n) ∧
    (∀ s ∈ m.gaps, ∀ r, r ∈ splitReasons s.reason ↔
      r ∈ (G.filter fun g => s.start ≤ g.start ∧ g.stop ≤ s.stop).map Gap.reason) ∧
    (∀ G' m', GapRun (fun _ _ => True) G' m' → G.Perm G' → ∀ s ∈ m.gaps, ∃ t ∈ m'.gaps,
      s.start = t.start ∧ s.stop = t.stop ∧
        ∀ r, r ∈ splitReasons s.reason ↔ r ∈ splitReasons t.reason) ∧
    (GapRun JoinsSingles G m →
      (∀ s ∈ m.gaps, splitReasons s.reason = sortedReasons
        ((G.filter fun g => s.start ≤ g.start ∧ g.stop ≤ s.stop).map Gap.reason)) ∧
      ∀ G' m', GapRun JoinsSingles G' m' → G.Perm G' → m.gaps = m'.gaps) := by
  have hbooks := h.books
  refine ⟨fun g hg => ?_, fun s hs => ?_, hbooks.apart, hbooks.covers,
    fun s hs => hbooks.mem_reasons hs,
    fun G' m' h' hperm s hs => hbooks.exists_same h'.books (fun g => hperm.mem_iff) hs,
    fun hrun => ⟨fun s hs => hbooks.reasons hs (hrun.tidy s hs), fun G' m' h' hperm =>
      hbooks.unique h'.books (fun g => hperm.mem_iff) hrun.tidy h'.tidy⟩⟩
  · obtain ⟨m', hm', -⟩ := hbooks.record hg
    exact ⟨m', hm'⟩
  · exact (hbooks.supported s hs).start_le

instance decidablePlainReason (r : Reason) : Decidable (PlainReason r) :=
  inferInstanceAs (Decidable (r ≠ [] ∧ '|' ∉ r))

/-- A range joined with a later one and with an earlier one, and then grown: in this order each
text is joined as a single reason. -/
theorem grownGap_runs {cond : List Gap → Gap → Prop} (h : ∀ S g, JoinsSingles S g → cond S g) :
    GapRun cond [⟨10, 20, ['b']⟩, ⟨1, 9, ['a']⟩, ⟨15, 25, ['c']⟩]
      ⟨[⟨1, 25, "a|b|c".toList⟩], false⟩ := by
  have h₁ : GapRun cond [⟨10, 20, ['b']⟩] ⟨[⟨10, 20, ['b']⟩], false⟩ :=
    .record (.start true) ⟨by decide, by decide, by decide⟩ (h _ _ (by decide)) (by decide +kernel)
  have h₂ : GapRun cond [⟨10, 20, ['b']⟩, ⟨1, 9, ['a']⟩] ⟨[⟨1, 20, "a|b".toList⟩], false⟩ :=
    .record h₁ (g := ⟨1, 9, ['a']⟩) ⟨by decide, by decide, by decide⟩ (h _ _ (by decide))
      (by decide +kernel)
  exact .record h₂ (g := ⟨15, 25, ['c']⟩) ⟨by decide, by decide, by decide⟩ (h _ _ (by decide))
    (by decide +kernel)

theorem history_gaps_kept_grown :
    ∃ m, GapRun JoinsSingles [⟨10, 20, ['b']⟩, ⟨1, 9, ['a']⟩, ⟨15, 25, ['c']⟩] m ∧
      m.gaps = [⟨1, 25, "a|b|c".toList⟩] ∧
      (∀ s ∈ m.gaps, splitReasons s.reason = sortedReasons
        (([⟨10, 20, ['b']⟩, ⟨1, 9, ['a']⟩, ⟨15, 25, ['c']⟩].filter
          fun g : Gap => s.start ≤ g.start ∧ g.stop ≤ s.stop).map Gap.reason)) := by
  have hrun := grownGap_runs fun _ _ h => h
  exact ⟨_, hrun, rfl,
    ((history_gaps_kept (grownGap_runs fun _ _ _ => trivial)).2.2.2.2.2.2 hrun).1⟩

/-- Three gaps that become one range. If the two later ones are joined first, their text is added
as one reason: `a` stands twice in the result, and another order of the same gaps gives another
list. -/
theorem joined_reasons_repeat :
    (do let m ← recordHistoryGap ⟨[], true⟩ 10 20 ['a']
        let m ← recordHistoryGap m 15 25 ['b']
        recordHistoryGap m 1 9 ['a']) = .ok ⟨[⟨1, 25, "a|a|b".toList⟩], false⟩ ∧
    (do let m ← recordHistoryGap ⟨[], true⟩ 1 9 ['a']
        let m ← recordHistoryGap m 10 20 ['a']
        recordHistoryGap m 15 25 ['b']) = .ok ⟨[⟨1, 25, "a|b".toList⟩], false⟩ := by
  decide +kernel

-- A text of several reasons may still come out right when it is added as one, if it happens to
-- sort in one piece among the others, as `b|c` does after `a` and not after `bb`.
example : (recordHistoryGap ⟨[⟨10, 25, "b|c".toList⟩], true⟩ 1 9 ['a']) =
      .ok ⟨[⟨1, 25, "a|b|c".toList⟩], false⟩ ∧
    (recordHistoryGap ⟨[⟨10, 25, "b|c".toList⟩], true⟩ 1 9 "bb".toList) =
      .ok ⟨[⟨1, 25, "bb|b|c".toList⟩], false⟩ := by
  decide +kernel

end MirageNode
