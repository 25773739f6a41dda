import Mathlib.Data.List.Basic
import Mathlib.Data.UInt
import Mathlib.Tactic.Common

/-!
# Tagged fields

A record written as a sequence of fields, each a tag byte followed by a number in base
128 or by a byte string with its length. The fields can be read back from the bytes as
long as a tag is never used for both kinds, so that two field lists with the same bytes
are the same list (`encodeAll_append_inj`).
-/

namespace TaggedFields

open List

abbrev Bytes := List UInt8

/-- A number in base 128, low digits first, every byte but the last with its high bit
set. -/
def uvarint (n : ℕ) : Bytes :=
  if 0x80 ≤ n then (UInt8.ofNat n ||| 0x80) :: uvarint (n >>> 7) else [UInt8.ofNat n]
termination_by n
decreasing_by simp only [Nat.shiftRight_eq_div_pow]; omega

variable {n : ℕ}

theorem uvarint_of_lt (h : n < 128) : uvarint n = [UInt8.ofNat n] := by
  rw [uvarint, if_neg (by omega)]

theorem uvarint_of_le (h : 128 ≤ n) :
    uvarint n = (UInt8.ofNat n ||| 0x80) :: uvarint (n / 128) := by
  rw [uvarint, if_pos h, Nat.shiftRight_eq_div_pow]

theorem toNat_or_high (n : ℕ) : (UInt8.ofNat n ||| 0x80).toNat = n % 128 + 128 := by
  have hbyte : ∀ b : Fin 256, b.val ||| 128 = b.val % 128 + 128 := by decide +kernel
  have h := hbyte ⟨n % 256, by omega⟩
  simp only [UInt8.toNat_or, UInt8.toNat_ofNat']
  simpa [Nat.mod_mod_of_dvd] using h

theorem toNat_ofNat_small (h : n < 128) : (UInt8.ofNat n).toNat = n := by
  simp only [UInt8.toNat_ofNat']
  omega

variable {xs ys : Bytes}

/-- A number can be cut off the front of any bytes. -/
theorem uvarint_append_inj {m : ℕ} : uvarint m ++ xs = uvarint n ++ ys ↔ m = n ∧ xs = ys := by
  refine ⟨fun h => ?_, fun ⟨h₁, h₂⟩ => by rw [h₁, h₂]⟩
  induction m using Nat.strong_induction_on generalizing n with
  | _ m ih =>
    -- The first byte says whether the number goes on, on both sides alike.
    rcases Nat.lt_or_ge m 128 with hm | hm <;> rcases Nat.lt_or_ge n 128 with hn | hn
    · rw [uvarint_of_lt hm, uvarint_of_lt hn] at h
      obtain ⟨hb, hxs⟩ := List.cons.inj h
      have hb := congrArg UInt8.toNat hb
      rw [toNat_ofNat_small hm, toNat_ofNat_small hn] at hb
      exact ⟨hb, hxs⟩
    · rw [uvarint_of_lt hm, uvarint_of_le hn] at h
      have hb := congrArg UInt8.toNat (List.cons.inj h).1
      rw [toNat_ofNat_small hm, toNat_or_high] at hb
      omega
    · rw [uvarint_of_le hm, uvarint_of_lt hn] at h
      have hb := congrArg UInt8.toNat (List.cons.inj h).1
      rw [toNat_ofNat_small hn, toNat_or_high] at hb
      omega
    · rw [uvarint_of_le hm, uvarint_of_le hn] at h
      obtain ⟨hb, htail⟩ := List.cons.inj h
      have hb := congrArg UInt8.toNat hb
      rw [toNat_or_high, toNat_or_high] at hb
      obtain ⟨hq, hxs⟩ := ih (m / 128) (by omega) htail
      exact ⟨by omega, hxs⟩

theorem uvarint_inj {m : ℕ} (h : uvarint m = uvarint n) : m = n := by
  have happ : uvarint m ++ [] = uvarint n ++ [] := by rw [h]
  exact (uvarint_append_inj.mp happ).1

/-- One field of a record. -/
inductive Field where
  | uint (tag : UInt8) (value : ℕ)
  | blob (tag : UInt8) (data : Bytes)
  deriving DecidableEq

namespace Field

def tag : Field → UInt8
  | uint t _ => t
  | blob t _ => t

def isBlob : Field → Bool
  | uint _ _ => false
  | blob _ _ => true

def encode : Field → Bytes
  | uint t v => t :: uvarint v
  | blob t d => t :: (uvarint d.length ++ d)

theorem encode_append_inj {f g : Field} (hkind : f.tag = g.tag → f.isBlob = g.isBlob)
    (h : f.encode ++ xs = g.encode ++ ys) : f = g ∧ xs = ys := by
  cases f with
  | uint t v =>
    cases g with
    | uint t' v' =>
      simp only [encode, cons_append, List.cons.injEq, uvarint_append_inj] at h
      exact ⟨by rw [h.1, h.2.1], h.2.2⟩
    | blob t' d' =>
      have ht : t = t' := (List.cons.inj h).1
      cases hkind ht
  | blob t d =>
    cases g with
    | uint t' v' =>
      have ht : t = t' := (List.cons.inj h).1
      cases hkind ht
    | blob t' d' =>
      simp only [encode, cons_append, List.cons.injEq, append_assoc,
        uvarint_append_inj] at h
      obtain ⟨ht, hlen, htail⟩ := h
      obtain ⟨hd, hxs⟩ := append_inj htail hlen
      exact ⟨by rw [ht, hd], hxs⟩

end Field

/-- The bytes of a list of fields. -/
def encodeAll (fs : List Field) : Bytes := fs.flatMap Field.encode

@[simp] theorem encodeAll_nil : encodeAll [] = [] := rfl

@[simp] theorem encodeAll_cons (f : Field) (fs : List Field) :
    encodeAll (f :: fs) = f.encode ++ encodeAll fs := rfl

@[simp] theorem encodeAll_append (fs gs : List Field) :
    encodeAll (fs ++ gs) = encodeAll fs ++ encodeAll gs := flatMap_append

/-- No tag stands for a number in one list and for a byte string in the other. -/
def SameKinds (fs gs : List Field) : Prop :=
  ∀ f ∈ fs, ∀ g ∈ gs, f.tag = g.tag → f.isBlob = g.isBlob

/-- The bytes do not begin with the tag of a field of the list. -/
def EndsAt (fs : List Field) (xs : Bytes) : Prop := ∀ f ∈ fs, xs.head? ≠ some f.tag

theorem endsAt_nil (fs : List Field) : EndsAt fs [] := nofun

theorem encodeAll_append_inj {fs gs : List Field} (hkinds : SameKinds fs gs) (hxs : EndsAt gs xs)
    (hys : EndsAt fs ys) (h : encodeAll fs ++ xs = encodeAll gs ++ ys) : fs = gs ∧ xs = ys := by
  induction fs generalizing gs with
  | nil =>
    cases gs with
    | nil => exact ⟨rfl, h⟩
    | cons g gs =>
      refine absurd ?_ (hxs g mem_cons_self)
      rw [encodeAll_nil, nil_append] at h
      rw [h]
      cases g <;> rfl
  | cons f fs ih =>
    cases gs with
    | nil =>
      refine absurd ?_ (hys f mem_cons_self)
      rw [encodeAll_nil, nil_append] at h
      rw [← h]
      cases f <;> rfl
    | cons g gs =>
      rw [encodeAll_cons, encodeAll_cons, append_assoc, append_assoc] at h
      obtain ⟨hfg, htail⟩ := Field.encode_append_inj
        (hkinds f mem_cons_self g mem_cons_self) h
      obtain ⟨hrest, hend⟩ := ih
        (fun a ha b hb => hkinds a (mem_cons_of_mem _ ha) b (mem_cons_of_mem _ hb))
        (fun b hb => hxs b (mem_cons_of_mem _ hb))
        (fun a ha => hys a (mem_cons_of_mem _ ha)) htail
      exact ⟨by rw [hfg, hrest], hend⟩

/-- Fields written unconditionally can be cut off the front. -/
theorem encodeAll_append_inj_of_shape {fs gs : List Field}
    (hshape : fs.map (fun f => (f.tag, f.isBlob)) = gs.map fun g => (g.tag, g.isBlob))
    (h : encodeAll fs ++ xs = encodeAll gs ++ ys) : fs = gs ∧ xs = ys := by
  induction fs generalizing gs with
  | nil =>
    rw [map_nil, eq_comm, map_eq_nil_iff] at hshape
    subst hshape
    exact ⟨rfl, h⟩
  | cons f fs ih =>
    cases gs with
    | nil => cases hshape
    | cons g gs =>
      simp only [map_cons, List.cons.injEq, Prod.mk.injEq] at hshape
      rw [encodeAll_cons, encodeAll_cons, append_assoc, append_assoc] at h
      obtain ⟨hfg, htail⟩ := Field.encode_append_inj (fun _ => hshape.1.2) h
      obtain ⟨hrest, hend⟩ := ih hshape.2 htail
      exact ⟨by rw [hfg, hrest], hend⟩

/-- A run of elements with a property, followed by elements without it, can be cut off. -/
theorem append_inj_of_split {α : Type*} {P : α → Prop} {as bs as' bs' : List α}
    (has : ∀ a ∈ as, P a) (has' : ∀ a ∈ as', P a) (hbs : ∀ b ∈ bs, ¬ P b) (hbs' : ∀ b ∈ bs', ¬ P b)
    (h : as ++ bs = as' ++ bs') : as = as' ∧ bs = bs' := by
  induction as generalizing as' with
  | nil =>
    cases as' with
    | nil => exact ⟨rfl, h⟩
    | cons a' as' =>
      refine absurd (has' a' mem_cons_self) (hbs a' ?_)
      rw [nil_append] at h
      rw [h]
      exact mem_cons_self
  | cons a as ih =>
    cases as' with
    | nil =>
      refine absurd (has a mem_cons_self) (hbs' a ?_)
      rw [nil_append] at h
      rw [← h]
      exact mem_cons_self
    | cons a' as' =>
      obtain ⟨ha, htail⟩ := List.cons.inj h
      obtain ⟨hrest, hb⟩ := ih (fun x hx => has x (mem_cons_of_mem _ hx))
        (fun x hx => has' x (mem_cons_of_mem _ hx)) htail
      exact ⟨by rw [ha, hrest], hb⟩

/-- What stands before the first occurrence of a byte is determined. -/
theorem append_stop_inj {stop : UInt8} {as as' : Bytes} (has : stop ∉ as) (has' : stop ∉ as')
    (h : as ++ stop :: xs = as' ++ stop :: ys) : as = as' ∧ xs = ys := by
  induction as generalizing as' with
  | nil =>
    cases as' with
    | nil => exact ⟨rfl, (List.cons.inj h).2⟩
    | cons a' as' => exact absurd (List.cons.inj h).1 (fun e => has' (e ▸ mem_cons_self))
  | cons a as ih =>
    cases as' with
    | nil => exact absurd (List.cons.inj h).1.symm (fun e => has (e ▸ mem_cons_self))
    | cons a' as' =>
      obtain ⟨ha, htail⟩ := List.cons.inj h
      obtain ⟨hrest, hxs⟩ := ih (fun hm => has (mem_cons_of_mem _ hm))
        (fun hm => has' (mem_cons_of_mem _ hm)) htail
      exact ⟨by rw [ha, hrest], hxs⟩

end TaggedFields
