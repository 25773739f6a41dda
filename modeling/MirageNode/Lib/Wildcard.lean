import Mathlib.Data.List.Infix
import Mathlib.Tactic.Common

/-!
# Patterns with wildcards

A pattern is a list in which one symbol, the star, stands for any list. `Fills` says what
a pattern means. `greedyMatch` decides it in one walk: the pattern is split at the stars,
every literal is looked for where it occurs first behind the one before, the first literal
has to stand at the start and the last one at the end.

The walk never goes back. It need not: the first occurrence of a literal leaves the longest
rest (`consume_complete`), and what can be done with a rest can be done with a longer one.
-/

namespace Wildcard

open List

variable {α : Type*}

/-! ## What a pattern means -/

/-- The text is the pattern with every star replaced by some list. -/
inductive Fills (star : α) : List α → List α → Prop
  | nil : Fills star [] []
  | literal {x : α} {text pattern : List α} : x ≠ star → Fills star text pattern →
      Fills star (x :: text) (x :: pattern)
  | wild (w : List α) {text pattern : List α} : Fills star text pattern →
      Fills star (w ++ text) (star :: pattern)

section Meaning

variable {star : α} {text pattern : List α}

theorem fills_nil_iff : Fills star text [] ↔ text = [] := by
  constructor
  · rintro ⟨⟩
    rfl
  · rintro rfl
    exact .nil

theorem fills_star_iff :
    Fills star text (star :: pattern) ↔ ∃ w rest, text = w ++ rest ∧ Fills star rest pattern := by
  constructor
  · intro h
    cases h with
    | literal hne _ => exact absurd rfl hne
    | wild w h => exact ⟨w, _, rfl, h⟩
  · rintro ⟨w, rest, rfl, h⟩
    exact .wild w h

theorem fills_literal_iff {x : α} (hx : x ≠ star) :
    Fills star text (x :: pattern) ↔ ∃ rest, text = x :: rest ∧ Fills star rest pattern := by
  constructor
  · intro h
    cases h with
    | literal _ h => exact ⟨_, rfl, h⟩
    | wild _ _ => exact absurd rfl hx
  · rintro ⟨rest, rfl, h⟩
    exact .literal hx h

/-- Without a star the pattern is the text. -/
theorem fills_iff_eq (hstar : star ∉ pattern) : Fills star text pattern ↔ text = pattern := by
  induction pattern generalizing text with
  | nil => exact fills_nil_iff
  | cons x pattern ih =>
    obtain ⟨hx, hrest⟩ : star ≠ x ∧ star ∉ pattern := by simpa using hstar
    rw [fills_literal_iff (Ne.symm hx)]
    constructor
    · rintro ⟨rest, rfl, h⟩
      rw [(ih hrest).mp h]
    · rintro rfl
      exact ⟨pattern, rfl, (ih hrest).mpr rfl⟩

/-- Other symbols with the same distinctions make no difference. -/
theorem fills_map_iff {β : Type*} {f : α → β} (hf : f.Injective) :
    Fills (f star) (text.map f) (pattern.map f) ↔ Fills star text pattern := by
  induction pattern generalizing text with
  | nil => simp only [map_nil, fills_nil_iff, map_eq_nil_iff]
  | cons x pattern ih =>
    rw [map_cons]
    by_cases hx : x = star
    · subst hx
      rw [fills_star_iff, fills_star_iff]
      constructor
      · rintro ⟨w, rest, htext, h⟩
        obtain ⟨w', rest', rfl, rfl, rfl⟩ := map_eq_append_iff.mp htext
        exact ⟨w', rest', rfl, ih.mp h⟩
      · rintro ⟨w, rest, rfl, h⟩
        exact ⟨w.map f, rest.map f, map_append, ih.mpr h⟩
    · rw [fills_literal_iff hx, fills_literal_iff (hf.ne hx)]
      constructor
      · rintro ⟨rest, htext, h⟩
        obtain ⟨x', rest', rfl, hx', rfl⟩ := map_eq_cons_iff.mp htext
        exact ⟨rest', by rw [hf hx'], ih.mp h⟩
      · rintro ⟨rest, rfl, h⟩
        exact ⟨rest.map f, rfl, ih.mpr h⟩

end Meaning

/-! ## The literals of a pattern -/

/-- The literals stand in the text in this order, with anything before each of them and
nothing behind the last one. -/
def Spread : List (List α) → List α → Prop
  | [], text => text = []
  | part :: parts, text => ∃ w rest, text = w ++ part ++ rest ∧ Spread parts rest

/-- The literals stand in the text in this order, and `rest` is what is behind them. -/
def Leaves : List (List α) → List α → List α → Prop
  | [], text, rest => text = rest
  | part :: parts, text, rest => ∃ w middle, text = w ++ part ++ middle ∧ Leaves parts middle rest

variable {parts : List (List α)}

/-- The last literal has to be a suffix of what the others leave. -/
theorem spread_append_iff {last text : List α} :
    Spread (parts ++ [last]) text ↔ ∃ rest, Leaves parts text rest ∧ last <:+ rest := by
  induction parts generalizing text with
  | nil =>
    constructor
    · rintro ⟨w, rest, rfl, rfl⟩
      exact ⟨_, rfl, w, (append_nil _).symm⟩
    · rintro ⟨rest, rfl, w, rfl⟩
      exact ⟨w, [], (append_nil _).symm, rfl⟩
  | cons part parts ih =>
    constructor
    · rintro ⟨w, middle, rfl, h⟩
      obtain ⟨rest, hleaves, hlast⟩ := ih.mp h
      exact ⟨rest, ⟨w, middle, rfl, hleaves⟩, hlast⟩
    · rintro ⟨rest, ⟨w, middle, rfl, hleaves⟩, hlast⟩
      exact ⟨w, middle, rfl, ih.mpr ⟨rest, hleaves, hlast⟩⟩

variable {rest : List α}

theorem Leaves.suffix {text : List α} (h : Leaves parts text rest) : rest <:+ text := by
  induction parts generalizing text with
  | nil => exact h ▸ suffix_rfl
  | cons part parts ih =>
    obtain ⟨w, middle, rfl, h⟩ := h
    exact (ih h).trans (suffix_append _ _)

variable [DecidableEq α]

/-- A pattern means that the text starts with its first literal, with the others behind it. -/
theorem fills_iff_of_splitOn {star : α} {pattern head : List α} {tail : List (List α)}
    (hsplit : pattern.splitOn star = head :: tail) {text : List α} :
    Fills star text pattern ↔ ∃ rest, text = head ++ rest ∧ Spread tail rest := by
  induction pattern generalizing head tail text with
  | nil =>
    obtain ⟨rfl, rfl⟩ := List.cons.inj hsplit
    rw [fills_nil_iff]
    exact ⟨fun h => ⟨[], h, rfl⟩, fun ⟨_, h, hrest⟩ => h.trans hrest⟩
  | cons x pattern ih =>
    obtain ⟨head', tail', hsplit'⟩ :=
      exists_cons_of_ne_nil (splitOnP_ne_nil (· == star) pattern)
    have hrest := @ih head' tail' hsplit'
    rw [List.splitOn, splitOnP_cons_eq_if_modifyHead, hsplit'] at hsplit
    by_cases hx : x = star
    · subst hx
      rw [if_pos (beq_self_eq_true x)] at hsplit
      obtain ⟨rfl, rfl⟩ := List.cons.inj hsplit
      rw [fills_star_iff]
      constructor
      · rintro ⟨w, _, rfl, h⟩
        obtain ⟨rest, rfl, hspread⟩ := hrest.mp h
        exact ⟨_, rfl, w, rest, (append_assoc _ _ _).symm, hspread⟩
      · rintro ⟨_, rfl, w, rest, rfl, hspread⟩
        exact ⟨w, head' ++ rest, append_assoc _ _ _, hrest.mpr ⟨rest, rfl, hspread⟩⟩
    · rw [if_neg (by simpa using hx), modifyHead_cons] at hsplit
      obtain ⟨rfl, rfl⟩ := List.cons.inj hsplit
      rw [fills_literal_iff hx]
      constructor
      · rintro ⟨_, rfl, h⟩
        obtain ⟨rest, rfl, hspread⟩ := hrest.mp h
        exact ⟨rest, rfl, hspread⟩
      · rintro ⟨rest, rfl, hspread⟩
        exact ⟨head' ++ rest, rfl, hrest.mpr ⟨rest, rfl, hspread⟩⟩

/-! ## Looking for a literal -/

/-- Where `part` occurs first. -/
def find (part : List α) : List α → Option ℕ
  | [] => if part = [] then some 0 else none
  | x :: text => if part.isPrefixOf (x :: text) then some 0 else (find part text).map (· + 1)

theorem find_of_head {part text : List α} (h : part <+: text) : find part text = some 0 := by
  cases text with
  | nil => rw [find, if_pos (prefix_nil.mp h)]
  | cons x text => rw [find, if_pos <| isPrefixOf_iff_prefix.mpr h]

theorem find_sound {part text : List α} {i : ℕ} (h : find part text = some i) :
    ∃ w rest, text = w ++ part ++ rest ∧ w.length = i := by
  induction text generalizing i with
  | nil =>
    rw [find] at h
    split at h
    next hpart =>
      obtain rfl := Option.some.inj h
      exact ⟨[], [], by rw [hpart]; rfl, rfl⟩
    next => cases h
  | cons x text ih =>
    rw [find] at h
    split at h
    next hprefix =>
      obtain rfl := Option.some.inj h
      obtain ⟨rest, hrest⟩ := isPrefixOf_iff_prefix.mp hprefix
      exact ⟨[], rest, hrest.symm, rfl⟩
    next =>
      obtain ⟨j, hj, rfl⟩ := Option.map_eq_some_iff.mp h
      obtain ⟨w, rest, rfl, rfl⟩ := ih hj
      exact ⟨x :: w, rest, rfl, rfl⟩

/-- No occurrence is before the one that is found. -/
theorem find_first (w part rest : List α) :
    ∃ i, find part (w ++ part ++ rest) = some i ∧ i ≤ w.length := by
  induction w with
  | nil => exact ⟨0, find_of_head (prefix_append part rest), le_rfl⟩
  | cons x w ih =>
    obtain ⟨i, hi, hle⟩ := ih
    by_cases hprefix : part <+: x :: w ++ part ++ rest
    · exact ⟨0, find_of_head hprefix, Nat.zero_le _⟩
    · refine ⟨i + 1, ?_, Nat.succ_le_succ hle⟩
      have hnot : ¬ part.isPrefixOf (x :: (w ++ part ++ rest)) = true :=
        mt isPrefixOf_iff_prefix.mp hprefix
      show find part (x :: (w ++ part ++ rest)) = _
      rw [find, if_neg hnot, hi]
      rfl

/-- What the search for one literal after the other leaves; empty literals are passed over. -/
def consume : List (List α) → List α → Option (List α)
  | [], text => some text
  | part :: parts, text =>
    if part = [] then consume parts text
    else (find part text).bind fun i => consume parts (text.drop (i + part.length))

theorem consume_append (parts : List (List α)) (last text : List α) :
    consume (parts ++ [last]) text = (consume parts text).bind (consume [last]) := by
  induction parts generalizing text with
  | nil => rfl
  | cons part parts ih =>
    rw [cons_append, consume, consume]
    split
    · exact ih text
    · cases find part text with
      | none => rfl
      | some i => exact ih _

theorem consume_sound {text : List α}
    (h : consume parts text = some rest) : Leaves parts text rest := by
  induction parts generalizing text with
  | nil => exact Option.some.inj h
  | cons part parts ih =>
    rw [consume] at h
    split at h
    next hpart => exact ⟨[], text, by rw [hpart]; rfl, ih h⟩
    next =>
      obtain ⟨i, hi, h⟩ := Option.bind_eq_some_iff.mp h
      obtain ⟨w, middle, rfl, rfl⟩ := find_sound hi
      rw [← length_append, drop_left] at h
      exact ⟨w, middle, rfl, ih h⟩

/-- A longer text leaves a longer rest. -/
theorem consume_complete {text long : List α} (h : Leaves parts text rest) (hlong : text <:+ long) :
    ∃ rest', consume parts long = some rest' ∧ rest <:+ rest' := by
  induction parts generalizing text long with
  | nil => exact ⟨long, rfl, h ▸ hlong⟩
  | cons part parts ih =>
    obtain ⟨w, middle, rfl, h⟩ := h
    obtain ⟨u, rfl⟩ := hlong
    rw [consume]
    split
    · refine ih h ?_
      exact (suffix_append _ _).trans (suffix_append _ _)
    · have hassoc : u ++ (w ++ part ++ middle) = (u ++ w) ++ part ++ middle := by
        simp only [append_assoc]
      obtain ⟨i, hi, hle⟩ := find_first (u ++ w) part middle
      rw [hassoc, hi, Option.bind_some]
      -- The first occurrence ends no later than this one.
      refine ih h ?_
      have hend : i + part.length ≤ (u ++ w ++ part).length := by
        rw [length_append]
        exact Nat.add_le_add_right hle _
      rw [drop_append_of_le_length hend]
      exact suffix_append _ _

/-! ## The walk -/

/-- The walk over the literals: `i` is the number of the next one, `pos` the place behind the
one before. `search` finds a literal in the text from a place on. -/
def walk (search : List α → ℕ → Option ℕ) : ℕ → ℕ → List (List α) → Option ℕ
  | _, pos, [] => some pos
  | i, pos, part :: parts =>
    if part = [] then walk search (i + 1) pos parts
    else match search part pos with
      | none => none
      | some idx =>
        if i = 0 ∧ idx ≠ 0 then none else walk search (i + 1) (idx + part.length) parts

/-- Whether a text matches a pattern. -/
def greedyMatch (search : List α → ℕ → Option ℕ) (star : α) (text pattern : List α) : Bool :=
  if star ∉ pattern then text = pattern
  else
    let parts := pattern.splitOn star
    match walk search 0 0 parts with
    | none => false
    | some _ =>
      match parts.getLast? with
      | none => true
      | some last => if last ≠ [] then last.isSuffixOf text else true

/-- The search is the one for the first occurrence behind a place in the text. -/
def Searches (search : List α → ℕ → Option ℕ) (text : List α) : Prop :=
  ∀ part pos, pos ≤ text.length → search part pos = (find part (text.drop pos)).map (pos + ·)

section Walk

variable {search : List α → ℕ → Option ℕ} {star : α} {text pattern : List α}

/-- Behind the first literal the walk consumes the rest of the text. -/
theorem walk_isSome (hsearch : Searches search text) {i pos : ℕ} (hi : i ≠ 0)
    (hpos : pos ≤ text.length) :
    (walk search i pos parts).isSome = (consume parts (text.drop pos)).isSome := by
  induction parts generalizing i pos with
  | nil => rfl
  | cons part parts ih =>
    rw [walk, consume]
    split
    · exact ih (Nat.succ_ne_zero i) hpos
    · rw [hsearch part pos hpos]
      cases hfind : find part (text.drop pos) with
      | none => rfl
      | some j =>
        obtain ⟨w, rest, htext, rfl⟩ := find_sound hfind
        have hbound : pos + w.length + part.length ≤ text.length := by
          have hlen := congrArg List.length htext
          simp only [length_drop, length_append] at hlen
          omega
        simp only [Option.map_some, Option.bind_some, hi, false_and, if_false, drop_drop]
        rw [ih (Nat.succ_ne_zero i) hbound, Nat.add_assoc]

/-- The first literal has to stand at the start. -/
theorem walk_head_isSome (hsearch : Searches search text) {head : List α} {tail : List (List α)} :
    (walk search 0 0 (head :: tail)).isSome = true ↔
      ∃ rest, text = head ++ rest ∧ (consume tail rest).isSome = true := by
  rw [walk]
  split
  next hhead =>
    rw [walk_isSome hsearch Nat.one_ne_zero (Nat.zero_le _), hhead, drop_zero]
    exact ⟨fun h => ⟨text, rfl, h⟩, fun ⟨_, htext, h⟩ => htext ▸ h⟩
  next =>
    rw [hsearch head 0 (Nat.zero_le _), drop_zero]
    constructor
    · intro h
      cases hfind : find head text with
      | none => simp [hfind] at h
      | some j =>
        obtain ⟨w, rest, rfl, rfl⟩ := find_sound hfind
        simp only [hfind, Option.map_some, Nat.zero_add, true_and] at h
        split at h
        · cases h
        next hw =>
          obtain rfl : w = [] := length_eq_zero_iff.mp (not_not.mp hw)
          simp only [nil_append, length_nil, Nat.zero_add] at h hsearch
          have hpos : head.length ≤ (head ++ rest).length := by simp
          rw [walk_isSome hsearch Nat.one_ne_zero hpos] at h
          refine ⟨rest, rfl, ?_⟩
          simpa using h
    · rintro ⟨rest, rfl, h⟩
      rw [find_of_head (prefix_append head rest)]
      simp only [Option.map_some, Nat.add_zero, ne_eq, not_true, and_false, if_false]
      have hpos : 0 + head.length ≤ (head ++ rest).length := by simp
      rw [walk_isSome hsearch Nat.one_ne_zero hpos]
      simpa using h

/-- With the last literal at the end of the text, consuming all literals spreads them. -/
theorem consume_last_iff {last text long : List α} (hlong : text <:+ long) :
    ((consume (parts ++ [last]) text).isSome = true ∧ (last ≠ [] → last <:+ long)) ↔
      Spread (parts ++ [last]) text := by
  rw [spread_append_iff, consume_append]
  constructor
  · rintro ⟨hsome, hlast⟩
    cases hrest : consume parts text with
    | none => simp [hrest] at hsome
    | some rest =>
      have hleaves := consume_sound hrest
      refine ⟨rest, hleaves, ?_⟩
      by_cases hempty : last = []
      · exact hempty ▸ nil_suffix
      · have hfits : last.length ≤ rest.length := by
          simp only [hrest, Option.bind_some, consume, hempty, if_false] at hsome
          cases hfind : find last rest with
          | none => simp [hfind] at hsome
          | some j =>
            obtain ⟨w, r, rfl, -⟩ := find_sound hfind
            simp only [length_append]
            omega
        exact suffix_of_suffix_length_le (hlast hempty) (hleaves.suffix.trans hlong) hfits
  · rintro ⟨rest, hleaves, hlast⟩
    obtain ⟨rest', hconsume, hle⟩ := consume_complete hleaves suffix_rfl
    refine ⟨?_, fun _ => hlast.trans (hleaves.suffix.trans hlong)⟩
    rw [hconsume, Option.bind_some, consume]
    split
    · rfl
    · obtain ⟨w, hw⟩ := hlast.trans hle
      obtain ⟨i, hi, -⟩ := find_first w last []
      rw [append_nil, hw] at hi
      rw [hi]
      rfl

/-- A star in the pattern makes at least two literals. -/
theorem splitOn_of_mem (hstar : star ∈ pattern) :
    ∃ head parts last, pattern.splitOn star = head :: (parts ++ [last]) := by
  have htwo : ∃ head tail, pattern.splitOn star = head :: tail ∧ tail ≠ [] := by
    induction pattern with
    | nil => cases hstar
    | cons x pattern ih =>
      rw [List.splitOn, splitOnP_cons_eq_if_modifyHead]
      by_cases hx : x = star
      · rw [if_pos (by simpa using hx)]
        exact ⟨[], _, rfl, splitOnP_ne_nil _ _⟩
      · have hrest : star ∈ pattern := (mem_cons.mp hstar).resolve_left (Ne.symm hx)
        obtain ⟨head, tail, hsplit, htail⟩ := ih hrest
        rw [List.splitOn] at hsplit
        rw [if_neg (by simpa using hx), hsplit, modifyHead_cons]
        exact ⟨x :: head, tail, rfl, htail⟩
  obtain ⟨head, tail, hsplit, htail⟩ := htwo
  refine ⟨head, tail.dropLast, tail.getLast htail, ?_⟩
  rw [hsplit, dropLast_concat_getLast]

/-- The walk decides what the pattern means. -/
theorem greedyMatch_iff (hsearch : Searches search text) :
    greedyMatch search star text pattern = true ↔ Fills star text pattern := by
  unfold greedyMatch
  by_cases hstar : star ∈ pattern
  · obtain ⟨head, parts, last, hsplit⟩ := splitOn_of_mem hstar
    have hlast : (head :: (parts ++ [last])).getLast? = some last := by
      rw [← cons_append, List.getLast?_concat]
    rw [if_neg (not_not.mpr hstar)]
    simp only [hsplit, hlast]
    -- The result is that of the walk and, for a last literal, of the check at the end.
    have hsteps : (match walk search 0 0 (head :: (parts ++ [last])) with
        | none => false
        | some _ => if last ≠ [] then last.isSuffixOf text else true) = true ↔
        (walk search 0 0 (head :: (parts ++ [last]))).isSome = true ∧
          (last ≠ [] → last <:+ text) := by
      cases walk search 0 0 (head :: (parts ++ [last])) with
      | none => simp
      | some pos =>
        by_cases hempty : last = []
        · simp [hempty]
        · simp [hempty, isSuffixOf_iff_suffix]
    rw [hsteps, walk_head_isSome hsearch, fills_iff_of_splitOn hsplit]
    constructor
    · rintro ⟨⟨rest, htext, hsome⟩, hend⟩
      have hrest : rest <:+ text := ⟨head, htext.symm⟩
      exact ⟨rest, htext, (consume_last_iff hrest).mp ⟨hsome, hend⟩⟩
    · rintro ⟨rest, htext, hspread⟩
      have hrest : rest <:+ text := ⟨head, htext.symm⟩
      obtain ⟨hsome, hend⟩ := (consume_last_iff hrest).mpr hspread
      exact ⟨⟨rest, htext, hsome⟩, hend⟩
  · rw [if_pos hstar, fills_iff_eq hstar, decide_eq_true_iff]

end Walk

end Wildcard
