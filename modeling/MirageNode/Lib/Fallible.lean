import Mathlib.Tactic.Common

/-!
# Fallible computations

Code that may fail returns `Except`. This file has the rules that proofs about
such code are built from.

* `failIf` is the early return `if c { return err }`.
* `bind_eq_ok` takes a successful sequence apart.
* `Ensures x post err` says what holds of the value when `x` returns and of the
  error when it fails. `Ensures.bind` composes it over a sequence and
  `Ensures.foldlM` over a loop. With `err := fun _ => False` it says that `x`
  returns.
-/

namespace Fallible

open List

variable {ε α β σ : Type} {x : Except ε α} {bad : ε → Prop}

/-- Fails with `e` when `c` holds. -/
def failIf (c : Prop) [Decidable c] (e : ε) : Except ε Unit :=
  if c then .error e else .ok ()

/-- The value satisfies `post` if `x` returns, the error satisfies `err` if it
fails. -/
def Ensures (x : Except ε α) (post : α → Prop) (err : ε → Prop) : Prop :=
  match x with
  | .ok a => post a
  | .error e => err e

/-! ## Taking successful runs apart -/

variable {f : α → Except ε β}

@[simp] theorem bind_eq_ok {b : β} : (x >>= f) = .ok b ↔ ∃ a, x = .ok a ∧ f a = .ok b := by
  cases x <;> simp [bind, Except.bind]

variable {c : Prop} {e : ε}

@[simp] theorem failIf_eq_ok [Decidable c] {u : Unit} : failIf c e = .ok u ↔ ¬ c := by
  unfold failIf
  split <;> simp_all

variable {a : α}

@[simp] theorem pure_eq_ok {b : α} : (pure a : Except ε α) = .ok b ↔ a = b := by
  simp [pure, Except.pure]

@[simp] theorem ok_bind (a : α) (f : α → Except ε β) : (Except.ok a >>= f) = f a := rfl

@[simp] theorem error_bind (e : ε) (f : α → Except ε β) :
    ((Except.error e : Except ε α) >>= f) = .error e := rfl

@[simp] theorem mapError_eq_ok {ε' : Type} {f : ε → ε'} : x.mapError f = .ok a ↔ x = .ok a := by
  cases x <;> simp [Except.mapError]

theorem toOption_eq_some : x.toOption = some a ↔ x = .ok a := by
  cases x <;> simp [Except.toOption]

/-- A check and what follows it, through a map of the value. -/
theorem map_failIf_bind {d : Prop} [Decidable c] [Decidable d] {f : α → β}
    {k : Unit → Except ε α} {l : Unit → Except ε β} (hcd : c ↔ d)
    (hrest : ¬ c → (k ()).map f = l ()) : (failIf c e >>= k).map f = failIf d e >>= l := by
  by_cases hc : c
  · rw [failIf, failIf, if_pos hc, if_pos (hcd.mp hc)]
    rfl
  · rw [failIf, failIf, if_neg hc, if_neg (mt hcd.mpr hc)]
    exact hrest hc

/-- A sequence, through a map of both values. -/
theorem map_bind_of_map {α' β' : Type} {f : α → α'} {g : β → β'}
    {y : Except ε α'} {k : α → Except ε β} {l : α' → Except ε β'} (hx : x.map f = y)
    (hk : ∀ a, (k a).map g = l (f a)) : (x >>= k).map g = y >>= l := by
  subst hx
  cases x with
  | error e => rfl
  | ok a => exact hk a

theorem map_eq_ok_iff {f : α → β} (hf : Function.Injective f) :
    x.map f = .ok (f a) ↔ x = .ok a := by
  cases x with
  | error e => simp [Except.map]
  | ok b => simp [Except.map, hf.eq_iff]

/-- A computation fails when no value is returned. -/
theorem exists_error_iff : (∃ e, x = .error e) ↔ ∀ a, x ≠ .ok a := by
  cases x <;> simp

theorem failIf_of_not [Decidable c] (e : ε) (h : ¬ c) : failIf c e = .ok () :=
  if_neg h

variable {xs : List α} {step : σ → α → Except ε σ} {s s' : σ}

/-- What every pass of a loop keeps, a loop that returns keeps. -/
theorem foldlM_ok_induction {P : σ → Prop}
    (hstep : ∀ x ∈ xs, ∀ s₁ s₂, step s₁ x = .ok s₂ → P s₁ → P s₂) (h : xs.foldlM step s = .ok s')
    (hs : P s) : P s' := by
  induction xs generalizing s with
  | nil =>
    rw [foldlM_nil, pure_eq_ok] at h
    exact h ▸ hs
  | cons x xs ih =>
    rw [foldlM_cons, bind_eq_ok] at h
    obtain ⟨s₁, hx, hrest⟩ := h
    exact ih (fun y hy => hstep y (mem_cons_of_mem x hy)) hrest
      (hstep x mem_cons_self s s₁ hx hs)

/-- A loop whose passes, when they return, do what `f` does. -/
theorem foldlM_ok_eq_foldl {f : σ → α → σ} (hstep : ∀ x s₁ s₂, step s₁ x = .ok s₂ → s₂ = f s₁ x)
    (h : xs.foldlM step s = .ok s') : s' = xs.foldl f s := by
  induction xs generalizing s with
  | nil => exact (pure_eq_ok.mp h).symm
  | cons x xs ih =>
    rw [foldlM_cons, bind_eq_ok] at h
    obtain ⟨s₁, hx, hrest⟩ := h
    rw [foldl_cons, ← hstep x s s₁ hx]
    exact ih hrest

/-- A loop in which every pass establishes its own fact and loses none. -/
theorem foldlM_ok_forall {Q : α → σ → Prop} (hdo : ∀ x s₁ s₂, step s₁ x = .ok s₂ → Q x s₂)
    (hkeep : ∀ x y s₁ s₂, step s₁ x = .ok s₂ → Q y s₁ → Q y s₂) (h : xs.foldlM step s = .ok s') :
    ∀ x ∈ xs, Q x s' := by
  induction xs generalizing s with
  | nil => exact fun x hx => absurd hx not_mem_nil
  | cons x xs ih =>
    rw [foldlM_cons, bind_eq_ok] at h
    obtain ⟨s₁, hx, hrest⟩ := h
    refine forall_mem_cons.mpr ⟨?_, ih hrest⟩
    exact foldlM_ok_induction (fun y _ => hkeep y x) hrest (hdo x s s₁ hx)

theorem forM_eq_ok {f : α → Except ε Unit} : xs.forM f = .ok () ↔ ∀ x ∈ xs, f x = .ok () := by
  induction xs with
  | nil => exact ⟨nofun, fun _ => rfl⟩
  | cons x xs ih =>
    have hcons : (x :: xs).forM f = f x >>= fun _ => xs.forM f := rfl
    rw [hcons, bind_eq_ok, forall_mem_cons, ← ih]
    exact ⟨fun ⟨_, hx, hxs⟩ => ⟨hx, hxs⟩, fun ⟨hx, hxs⟩ => ⟨_, hx, hxs⟩⟩

/-- A map that succeeds succeeded on every element. -/
theorem mapM_eq_ok {ys : List β} (h : xs.mapM f = .ok ys) :
    List.Forall₂ (fun x y => f x = .ok y) xs ys := by
  induction xs generalizing ys with
  | nil =>
    rw [mapM_nil, pure_eq_ok] at h
    subst h
    exact .nil
  | cons x xs ih =>
    simp only [mapM_cons, bind_eq_ok, pure_eq_ok] at h
    obtain ⟨y, hy, ys', hys, rfl⟩ := h
    exact .cons hy (ih hys)

/-- A map that changes no element. -/
theorem mapM_eq_ok_self {f : α → Except ε α} (h : ∀ x ∈ xs, f x = .ok x) : xs.mapM f = .ok xs := by
  induction xs with
  | nil => rfl
  | cons x xs ih =>
    rw [mapM_cons, h x mem_cons_self, ok_bind,
      ih fun y hy => h y (mem_cons_of_mem x hy)]
    rfl

theorem mapM_ok_of_mem {ys : List β} {x : α}
    (h : xs.mapM f = .ok ys) (hx : x ∈ xs) : ∃ y, f x = .ok y := by
  induction xs generalizing ys with
  | nil => cases hx
  | cons x' xs ih =>
    simp only [mapM_cons, bind_eq_ok] at h
    obtain ⟨y, hy, ys', hys, -⟩ := h
    rcases mem_cons.mp hx with rfl | hx
    · exact ⟨y, hy⟩
    · exact ih hys hx

/-! ## Postconditions -/

variable {err : ε → Prop} {post : α → Prop}

theorem Ensures.imp {post' : α → Prop} {err' : ε → Prop} (h : Ensures x post err)
    (hpost : ∀ a, post a → post' a) (herr : ∀ e, err e → err' e) : Ensures x post' err' := by
  cases x with
  | ok a => exact hpost a h
  | error e => exact herr e h

theorem Ensures.bind {mid : α → Prop} {post : β → Prop} (hx : Ensures x mid err)
    (hf : ∀ a, mid a → Ensures (f a) post err) : Ensures (x >>= f) post err := by
  cases x with
  | ok a => exact hf a hx
  | error e => exact hx

/-- Sequencing, keeping the equation for the first part. -/
theorem Ensures.bind_eq {post : β → Prop} (hx : ∀ e, x = .error e → err e)
    (hf : ∀ a, x = .ok a → Ensures (f a) post err) : Ensures (x >>= f) post err := by
  cases x with
  | ok a => exact hf a rfl
  | error e => exact hx e rfl

theorem Ensures.failIf_bind [Decidable c] {f : Unit → Except ε β} {post : β → Prop} (he : c → err e)
    (hf : ¬ c → Ensures (f ()) post err) : Ensures (failIf c e >>= f) post err := by
  by_cases hc : c
  · rw [failIf, if_pos hc]
    exact he hc
  · rw [failIf_of_not e hc]
    exact hf hc

/-- A loop with an invariant on the state and the passes still to come. -/
theorem Ensures.foldlM {I : List α → σ → Prop}
    (hstep : ∀ x xs s, I (x :: xs) s → Ensures (step s x) (I xs) err) (hs : I xs s) :
    Ensures (xs.foldlM step s) (I []) err := by
  induction xs generalizing s with
  | nil => exact hs
  | cons x xs ih =>
    rw [foldlM_cons]
    exact (hstep x xs s hs).bind fun s₁ h₁ => ih h₁

theorem Ensures.of_avoids (hok : ∀ a, x = .ok a → post a) (herr : ∀ e, x = .error e → ¬ bad e) :
    Ensures x post (fun e => ¬ bad e) := by
  cases x with
  | ok a => exact hok a rfl
  | error e => exact herr e rfl

theorem Ensures.of_eq_ok (h : Ensures x post err) (hx : x = .ok a) : post a := by
  rw [hx] at h
  exact h

theorem Ensures.exists_ok (h : Ensures x post (fun _ => False)) : ∃ a, x = .ok a ∧ post a := by
  cases x with
  | ok a => exact ⟨a, rfl, h⟩
  | error e => exact h.elim

/-! ## Errors that do not occur -/

/-- Never fails with an error in `bad`. -/
def Avoids (bad : ε → Prop) (x : Except ε α) : Prop := ∀ e, x = .error e → ¬ bad e

theorem Avoids.ok (a : α) : Avoids bad (.ok a) := nofun

theorem Avoids.error (h : ¬ bad e) : Avoids bad (.error e : Except ε α) := by
  rintro _ ⟨⟩
  exact h

theorem Avoids.mono {bad bad' : ε → Prop} (h : Avoids bad x)
    (hbad : ∀ e, bad' e → bad e) : Avoids bad' x :=
  fun e he hbe => h e he (hbad e hbe)

theorem Avoids.bind (hx : Avoids bad x)
    (hf : ∀ a, x = .ok a → Avoids bad (f a)) : Avoids bad (x >>= f) := by
  cases x with
  | ok a => exact hf a rfl
  | error e => exact .error (hx e rfl)

theorem Avoids.map (f : α → β) (hx : Avoids bad x) : Avoids bad (x.map f) := by
  cases x with
  | ok a => exact .ok _
  | error e => exact .error (hx e rfl)

theorem Avoids.mapError {ε' : Type} {bad : ε' → Prop} {f : ε → ε'}
    (h : ∀ e, x = .error e → ¬ bad (f e)) : Avoids bad (x.mapError f) := by
  cases x with
  | ok a => exact .ok a
  | error e => exact .error (h e rfl)

theorem Avoids.failIf [Decidable c] (h : c → ¬ bad e) : Avoids bad (failIf c e) := by
  by_cases hc : c
  · rw [Fallible.failIf, if_pos hc]
    exact .error (h hc)
  · rw [failIf_of_not e hc]
    exact .ok ()

/-- A loop whose steps keep an invariant under which they avoid the errors. -/
theorem Avoids.foldlM_mem {I : σ → Prop} (hstep : ∀ s, ∀ x ∈ xs, I s → Avoids bad (step s x))
    (hkeep : ∀ s x s', I s → step s x = .ok s' → I s') (hs : I s) :
    Avoids bad (xs.foldlM step s) := by
  induction xs generalizing s with
  | nil => exact .ok s
  | cons x xs ih =>
    rw [foldlM_cons]
    exact (hstep s x mem_cons_self hs).bind fun s' hs' =>
      ih (fun s y hy => hstep s y (mem_cons_of_mem x hy)) (hkeep s x s' hs hs')

theorem Avoids.foldlM {I : σ → Prop} (hstep : ∀ s x, I s → Avoids bad (step s x))
    (hkeep : ∀ s x s', I s → step s x = .ok s' → I s') (hs : I s) : Avoids bad (xs.foldlM step s) :=
  .foldlM_mem (fun s x _ => hstep s x) hkeep hs

end Fallible
