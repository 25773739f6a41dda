import Mathlib

/-!
# A log of the stretches in which a switch was on

A switch goes on and off while a counter moves up. The log keeps the half-open stretch
`(start, stop]` of each time it was on, and the start of the one that is still open. A log that
is written in order covers a value of the counter exactly if the switch was on when the counter
took it: a later entry never changes what the log says about an earlier value.
-/

namespace WindowLog

/-- The closed stretches, oldest first, and the start of the open one. -/
structure Log (α : Type*) where
  closed : List (α × α)
  opened : Option α

variable {α : Type*} [LinearOrder α]

namespace Log

/-- Nothing logged. -/
def empty : Log α := ⟨[], none⟩

/-- The value lies in a stretch. -/
def Covers (l : Log α) (n : α) : Prop :=
  (∃ w ∈ l.closed, w.1 < n ∧ n ≤ w.2) ∨ ∃ start, l.opened = some start ∧ start < n

/-- The switch goes on; if it is on already, the open stretch keeps its start. -/
def start (l : Log α) (now : α) : Log α :=
  { l with opened := some (l.opened.getD now) }

/-- The switch goes off; a stretch that nothing lies in is not logged. -/
def stop (l : Log α) (now : α) : Log α :=
  match l.opened with
  | none => l
  | some start => ⟨if start < now then l.closed ++ [(start, now)] else l.closed, none⟩

@[simp] theorem opened_stop (l : Log α) (now : α) : (l.stop now).opened = none := by
  unfold stop
  cases hopen : l.opened with
  | none => exact hopen
  | some _ => rfl

/-- The log was written in order and has reached a value of the counter. -/
structure Upto (l : Log α) (now : α) : Prop where
  nonempty : ∀ w ∈ l.closed, w.1 < w.2
  increasing : l.closed.Pairwise fun v w => v.2 ≤ w.1
  past : ∀ w ∈ l.closed, w.2 ≤ now
  last : ∀ start, l.opened = some start → start ≤ now ∧ ∀ w ∈ l.closed, w.2 ≤ start

variable {l : Log α} {now : α}

theorem upto_empty (now : α) : (empty : Log α).Upto now :=
  ⟨nofun, .nil, nofun, nofun⟩

theorem not_covers_empty (n : α) : ¬ (empty : Log α).Covers n := by
  rintro (⟨_, hmem, -⟩ | ⟨_, hopen, -⟩)
  · cases hmem
  · cases hopen

theorem Upto.mono {now' : α} (h : l.Upto now) (hle : now ≤ now') : l.Upto now' where
  nonempty := h.nonempty
  increasing := h.increasing
  past := fun w hw => (h.past w hw).trans hle
  last := fun start hopen => ⟨(h.last start hopen).1.trans hle, (h.last start hopen).2⟩

/-- A value after those logged is covered if the switch is on. -/
theorem Upto.covers_later {n : α} (h : l.Upto now) (hlt : now < n) :
    l.Covers n ↔ l.opened.isSome = true := by
  constructor
  · rintro (⟨w, hw, -, hle⟩ | ⟨start, hopen, -⟩)
    · exact absurd (hle.trans (h.past w hw)) (not_le.mpr hlt)
    · rw [hopen]
      rfl
  · intro hsome
    obtain ⟨start, hopen⟩ := Option.isSome_iff_exists.mp hsome
    exact .inr ⟨start, hopen, (h.last start hopen).1.trans_lt hlt⟩

theorem Upto.start (h : l.Upto now) : (l.start now).Upto now where
  nonempty := h.nonempty
  increasing := h.increasing
  past := h.past
  last := by
    rintro _ ⟨⟩
    cases hopen : l.opened with
    | none => exact ⟨le_rfl, h.past⟩
    | some start => exact h.last start hopen

/-- Going on says nothing about the values before. -/
theorem covers_start {n : α} (hle : n ≤ now) : (l.start now).Covers n ↔ l.Covers n := by
  refine or_congr Iff.rfl ?_
  cases hopen : l.opened with
  | some start => simp only [Log.start, hopen, Option.getD_some]
  | none =>
    simp only [Log.start, hopen, Option.getD_none, Option.some.injEq, exists_eq_left',
      reduceCtorEq, false_and, exists_false, iff_false, not_lt]
    exact hle

theorem Upto.stop (h : l.Upto now) : (l.stop now).Upto now := by
  unfold Log.stop
  cases hopen : l.opened with
  | none => exact h
  | some start =>
    have hlast := h.last start hopen
    by_cases hlt : start < now
    · simp only [if_pos hlt]
      refine ⟨?_, ?_, ?_, nofun⟩
      · intro w hw
        rcases List.mem_append.mp hw with hw | hw
        · exact h.nonempty w hw
        · obtain rfl := List.mem_singleton.mp hw
          exact hlt
      · refine List.pairwise_append.mpr ⟨h.increasing, List.pairwise_singleton _ _, ?_⟩
        intro v hv w hw
        obtain rfl := List.mem_singleton.mp hw
        exact hlast.2 v hv
      · intro w hw
        rcases List.mem_append.mp hw with hw | hw
        · exact h.past w hw
        · obtain rfl := List.mem_singleton.mp hw
          exact le_rfl
    · simp only [if_neg hlt]
      exact ⟨h.nonempty, h.increasing, h.past, nofun⟩

/-- Going off keeps what the open stretch has covered. -/
theorem covers_stop {n : α} (hle : n ≤ now) : (l.stop now).Covers n ↔ l.Covers n := by
  unfold Log.stop
  cases hopen : l.opened with
  | none => exact Iff.rfl
  | some start =>
    have hclosed : (∃ w ∈ if start < now then l.closed ++ [(start, now)] else l.closed,
        w.1 < n ∧ n ≤ w.2) ↔ (∃ w ∈ l.closed, w.1 < n ∧ n ≤ w.2) ∨ start < n := by
      by_cases hlt : start < now
      · simp only [if_pos hlt, List.mem_append, List.mem_singleton, or_and_right, exists_or,
          exists_eq_left, hle, and_true]
      · have hnot : ¬ start < n := fun h => hlt (h.trans_le hle)
        simp only [if_neg hlt, hnot, or_false]
    simp only [Covers, hclosed, hopen, reduceCtorEq, false_and, exists_false, or_false,
      Option.some.injEq, exists_eq_left']

/-- The stretches of a log, of which the open one has no end. -/
def windows (l : Log α) : List (α × Option α) :=
  l.closed.map (fun w => (w.1, some w.2)) ++ (l.opened.map fun start => (start, none)).toList

theorem covers_iff_windows {n : α} : l.Covers n ↔
    ∃ w ∈ l.windows, w.1 < n ∧ ∀ stop, w.2 = some stop → n ≤ stop := by
  simp only [Covers, windows, List.mem_append, List.mem_map, Option.mem_toList,
    Option.map_eq_some_iff]
  constructor
  · rintro (⟨w, hw, hlt, hle⟩ | ⟨start, hopen, hlt⟩)
    · exact ⟨_, .inl ⟨w, hw, rfl⟩, hlt, fun _ heq => Option.some.inj heq ▸ hle⟩
    · exact ⟨_, .inr ⟨start, hopen, rfl⟩, hlt, nofun⟩
  · rintro ⟨_, ⟨w, hw, rfl⟩ | ⟨start, hopen, rfl⟩, hlt, hle⟩
    · exact .inl ⟨w, hw, hlt, hle w.2 rfl⟩
    · exact .inr ⟨start, hopen, hlt⟩

/-- The stretches follow one another. -/
theorem Upto.windows_increasing (h : l.Upto now) :
    l.windows.Pairwise fun v w => ∃ stop, v.2 = some stop ∧ stop ≤ w.1 := by
  refine List.pairwise_append.mpr ⟨?_, ?_, ?_⟩
  · exact List.pairwise_map.mpr (h.increasing.imp fun hle => ⟨_, rfl, hle⟩)
  · cases l.opened with
    | none => exact .nil
    | some start => exact List.pairwise_singleton _ _
  · intro v hv w hw
    obtain ⟨u, hu, rfl⟩ := List.mem_map.mp hv
    obtain ⟨start, hopen, rfl⟩ := Option.map_eq_some_iff.mp (Option.mem_toList.mp hw)
    exact ⟨u.2, rfl, (h.last start hopen).2 u hu⟩

end Log

end WindowLog
