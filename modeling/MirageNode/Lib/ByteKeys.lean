import Mathlib.Data.List.Lex
import Mathlib.Data.List.Forall2
import Mathlib.Data.UInt
import Mathlib.Tactic.Common

/-!
# Keys made of components

A store key is a sequence of components, some of a width fixed by their place and
some behind a two-byte length. Components of one layout can be read back from the
bytes (`encodeAll_append_inj`), so keys of one layout are equal only if their
components are, and the first components are a byte prefix of the key exactly when they
are the key's first components (`encodeAll_isPrefix_iff`).

A store is scanned by a prefix as the range from the prefix up to `prefixEnd`, the
prefix counted up by one. The range holds every key with the prefix
(`inRange_of_isPrefix`), and besides at most keys shorter than the prefix
(`isPrefix_or_short`). Up to `trimmedEnd` the range is exact
(`isPrefix_iff_trimmedEnd`).
-/

namespace ByteKeys

open List

/-! ## Components -/

/-- One component: bytes of a width known from the layout, or bytes behind their
length. -/
inductive Part where
  | raw (bytes : List UInt8)
  | counted (bytes : List UInt8)
deriving DecidableEq

/-- What a layout says about a component. -/
inductive Width where
  | bytes (n : ℕ)
  | counted

def Part.encode : Part → List UInt8
  | .raw b => b
  | .counted b => UInt8.ofNat (b.length / 256) :: UInt8.ofNat (b.length % 256) :: b

/-- The component has the width its place asks for. -/
def Part.Fits : Part → Width → Prop
  | .raw b, .bytes n => b.length = n
  | .counted b, .counted => b.length < 65536
  | _, _ => False

def encodeAll (parts : List Part) : List UInt8 := parts.flatMap Part.encode

variable {u v k p : List UInt8} {xs : List Part} {b : UInt8}

theorem encode_append_inj {w : Width} {x y : Part} (hx : x.Fits w) (hy : y.Fits w) :
    x.encode ++ u = y.encode ++ v ↔ x = y ∧ u = v := by
  refine ⟨fun h => ?_, fun ⟨hxy, huv⟩ => by rw [hxy, huv]⟩
  match x, y, w, hx, hy with
  | .raw a, .raw b, .bytes n, hx, hy =>
    obtain ⟨rfl, rfl⟩ := append_inj h (hx.trans hy.symm)
    exact ⟨rfl, rfl⟩
  | .counted a, .counted b, .counted, hx, hy =>
    -- The two length bytes determine the length, and the length what follows.
    simp only [Part.encode, cons_append, List.cons.injEq] at h
    obtain ⟨hhigh, hlow, hrest⟩ := h
    have hhigh := congrArg UInt8.toNat hhigh
    have hlow := congrArg UInt8.toNat hlow
    simp only [UInt8.toNat_ofNat'] at hhigh hlow
    have hlength : a.length = b.length := by
      change a.length < 65536 at hx
      change b.length < 65536 at hy
      omega
    obtain ⟨rfl, rfl⟩ := append_inj hrest hlength
    exact ⟨rfl, rfl⟩

theorem encodeAll_append_inj {ws : List Width} {ys : List Part}
    (hx : List.Forall₂ Part.Fits xs ws) (hy : List.Forall₂ Part.Fits ys ws) :
    encodeAll xs ++ u = encodeAll ys ++ v ↔ xs = ys ∧ u = v := by
  induction hx generalizing ys with
  | nil =>
    cases hy
    simp
  | @cons x w xs ws hxw hxs ih =>
    obtain _ | ⟨hyw, hys⟩ := hy
    simp only [encodeAll, flatMap_cons, append_assoc]
    rw [encode_append_inj hxw hyw, List.cons.injEq, and_assoc]
    exact and_congr_right fun _ => ih hys

/-- The first components are a byte prefix exactly of the keys that start with them. -/
theorem encodeAll_isPrefix_iff {ws : List Width} {ys zs : List Part}
    (hx : List.Forall₂ Part.Fits xs ws) (hy : List.Forall₂ Part.Fits ys ws) :
    encodeAll xs <+: encodeAll (ys ++ zs) ↔ xs = ys := by
  have hsplit : encodeAll (ys ++ zs) = encodeAll ys ++ encodeAll zs := flatMap_append
  rw [hsplit]
  constructor
  · rintro ⟨rest, hrest⟩
    exact ((encodeAll_append_inj hx hy).mp hrest).1
  · rintro rfl
    exact prefix_append _ _

/-! ## Ranges -/

/-- Bytes in their usual order. -/
scoped instance instLinearOrderByte : LinearOrder UInt8 where
  le_refl := UInt8.le_refl
  le_trans _ _ _ := UInt8.le_trans
  le_antisymm _ _ := UInt8.le_antisymm
  le_total := UInt8.le_total
  lt_iff_le_not_ge _ _ := by
    rw [UInt8.not_le]
    exact ⟨fun h => ⟨UInt8.le_of_lt h, h⟩, And.right⟩
  toDecidableLE := inferInstance

/-- The first bytes above all keys that start with `p`: `p` counted up by one, with a
carry over bytes that are full. There is none if all bytes are. -/
def prefixEnd : List UInt8 → Option (List UInt8)
  | [] => none
  | b :: rest =>
    match prefixEnd rest with
    | some e => some (b :: e)
    | none => if b = 255 then none else some ((b + 1) :: List.replicate rest.length 0)

/-- The keys an iterator over the prefix visits. -/
def InRange (p k : List UInt8) : Prop := p ≤ k ∧ ∀ e, prefixEnd p = some e → k < e

theorem cons_le_cons_iff {a : UInt8} {l m : List UInt8} :
    a :: l ≤ b :: m ↔ a < b ∨ a = b ∧ l ≤ m := by
  rw [← not_lt, cons_lt_cons_iff, ← not_lt (a := m), not_or, not_and]
  constructor
  · rintro ⟨hba, hlm⟩
    rcases lt_trichotomy a b with hab | rfl | hab
    · exact .inl hab
    · exact .inr ⟨rfl, hlm rfl⟩
    · exact absurd hab hba
  · rintro (hab | ⟨rfl, hlm⟩)
    · exact ⟨hab.asymm, fun h => absurd h hab.ne'⟩
    · exact ⟨lt_irrefl a, fun _ => hlm⟩

theorem nil_le (l : List UInt8) : [] ≤ l := by
  rw [← not_lt]
  exact not_lt_nil l

theorem toNat_add_one_of_ne (h : b ≠ 255) : (b + 1).toNat = b.toNat + 1 := by
  have hlt := b.toNat_lt
  have hne : b.toNat ≠ 255 := fun heq => h (UInt8.toNat_inj.mp heq)
  rw [UInt8.toNat_add]
  change (b.toNat + 1) % 256 = b.toNat + 1
  omega

theorem lt_add_one_of_ne (h : b ≠ 255) : b < b + 1 := by
  rw [UInt8.lt_iff_toNat_lt, toNat_add_one_of_ne h]
  exact Nat.lt_succ_self _

theorem le_of_lt_add_one {c : UInt8} (h : b ≠ 255) (hc : c < b + 1) : c ≤ b := by
  rw [UInt8.lt_iff_toNat_lt, toNat_add_one_of_ne h] at hc
  rw [UInt8.le_iff_toNat_le]
  exact Nat.le_of_lt_succ hc

theorem le_full (b : UInt8) : b ≤ 255 := by
  rw [UInt8.le_iff_toNat_le]
  exact Nat.le_of_lt_succ b.toNat_lt

/-- Only shorter runs of zeros are below a run of zeros. -/
theorem lt_replicate_zero {n : ℕ} (h : k < List.replicate n 0) :
    ∃ j < n, k = List.replicate j 0 := by
  induction n generalizing k with
  | zero => exact absurd h (not_lt_nil k)
  | succ n ih =>
    cases k with
    | nil => exact ⟨0, Nat.succ_pos n, rfl⟩
    | cons c k =>
      rw [replicate_succ, cons_lt_cons_iff] at h
      obtain hc | ⟨rfl, hk⟩ := h
      · exact absurd hc (by rw [UInt8.lt_iff_toNat_lt]; exact Nat.not_lt_zero _)
      · obtain ⟨j, hj, rfl⟩ := ih hk
        exact ⟨j + 1, Nat.succ_lt_succ hj, rfl⟩

theorem prefixEnd_eq_none (h : prefixEnd p = none) : p = List.replicate p.length 255 := by
  induction p with
  | nil => rfl
  | cons b rest ih =>
    rw [prefixEnd] at h
    split at h
    · cases h
    next hnone =>
      split at h
      next hb => rw [length_cons, replicate_succ, ← ih hnone, hb]
      next => cases h

theorem inRange_of_isPrefix (h : p <+: k) : InRange p k := by
  induction p generalizing k with
  | nil => exact ⟨nil_le k, fun e he => nomatch he⟩
  | cons b rest ih =>
    obtain ⟨t, rfl⟩ := h
    obtain ⟨hle, hlt⟩ := ih (prefix_append rest t)
    refine ⟨cons_le_cons_iff.mpr (.inr ⟨rfl, hle⟩), fun e he => ?_⟩
    rw [prefixEnd] at he
    split at he
    next e' hend =>
      obtain rfl := Option.some.inj he
      exact cons_lt_cons_iff.mpr (.inr ⟨rfl, hlt e' hend⟩)
    next =>
      split at he
      · cases he
      next hb =>
        obtain rfl := Option.some.inj he
        exact cons_lt_cons_iff.mpr (.inl (lt_add_one_of_ne hb))

/-- `k` is what counting up leaves of `p`, cut off inside the zeros of the carry. -/
def Short (p k : List UInt8) : Prop :=
  ∃ q b r j, p = q ++ b :: List.replicate r 255 ∧ b ≠ 255 ∧
    k = q ++ (b + 1) :: List.replicate j 0 ∧ j < r

theorem isPrefix_or_short (h : InRange p k) : p <+: k ∨ Short p k := by
  induction p generalizing k with
  | nil => exact .inl nil_prefix
  | cons b rest ih =>
    obtain ⟨hle, hlt⟩ := h
    cases k with
    | nil => exact absurd hle (not_le.mpr (nil_lt_cons b rest))
    | cons c k =>
      rw [cons_le_cons_iff] at hle
      cases hend : prefixEnd rest with
      | some e =>
        have hlt := hlt (b :: e) (by rw [prefixEnd, hend])
        rw [cons_lt_cons_iff] at hlt
        -- The first bytes agree, and the rest is a range of its own.
        obtain ⟨rfl, hrest⟩ : b = c ∧ rest ≤ k := by
          rcases hle with hbc | heq
          · rcases hlt with hcb | ⟨rfl, -⟩
            · exact absurd hbc hcb.asymm
            · exact absurd hbc (lt_irrefl _)
          · exact heq
        have hke : k < e := by
          rcases hlt with hbb | ⟨-, hke⟩
          · exact absurd hbb (lt_irrefl _)
          · exact hke
        have hin : InRange rest k := ⟨hrest, fun e' he' => by
          obtain rfl := Option.some.inj (hend.symm.trans he')
          exact hke⟩
        refine (ih hin).imp (fun hp => (cons_prefix_cons).mpr ⟨rfl, hp⟩) ?_
        rintro ⟨q, b', r, j, rfl, hb', rfl, hj⟩
        exact ⟨b :: q, b', r, j, rfl, hb', rfl, hj⟩
      | none =>
        have hfull := prefixEnd_eq_none hend
        have htail : b = c ∧ rest ≤ k → (b :: rest) <+: (c :: k) := by
          rintro ⟨rfl, hrest⟩
          have hin : InRange rest k := ⟨hrest, fun e he => by rw [hend] at he; cases he⟩
          rcases ih hin with hp | ⟨q, b', r, j, heq, hb', -, -⟩
          · exact cons_prefix_cons.mpr ⟨rfl, hp⟩
          · have hmem : b' ∈ rest := by rw [heq]; simp
            rw [hfull] at hmem
            exact absurd (eq_of_mem_replicate hmem) hb'
        by_cases hb : b = 255
        · refine .inl (htail ?_)
          rcases hle with hbc | heq
          · exact absurd (hb ▸ hbc) (not_lt.mpr (le_full c))
          · exact heq
        · have hlt := hlt _ (by rw [prefixEnd, hend]; exact if_neg hb)
          rw [cons_lt_cons_iff] at hlt
          rcases hlt with hc | ⟨rfl, hk⟩
          · refine .inl (htail ?_)
            rcases hle with hbc | heq
            · exact absurd (le_of_lt_add_one hb hc) (not_le.mpr hbc)
            · exact heq
          · obtain ⟨j, hj, rfl⟩ := lt_replicate_zero hk
            exact .inr ⟨[], b, rest.length, j, by rw [nil_append, ← hfull], hb, rfl, hj⟩

theorem Short.length_lt (h : Short p k) : k.length < p.length := by
  obtain ⟨q, b, r, j, rfl, -, rfl, hj⟩ := h
  simpa using hj

/-- The least bytes above all keys that start with `p`: full bytes at the end are cut off
and the last byte left is counted up. -/
def trimmedEnd : List UInt8 → Option (List UInt8)
  | [] => none
  | b :: rest =>
    match trimmedEnd rest with
    | some e => some (b :: e)
    | none => if b = 255 then none else some [b + 1]

/-- Without the zeros of a carry the range holds the keys with the prefix and no others. -/
theorem isPrefix_iff_trimmedEnd : p <+: k ↔ p ≤ k ∧ ∀ e, trimmedEnd p = some e → k < e := by
  induction p generalizing k with
  | nil => exact iff_of_true nil_prefix ⟨nil_le k, fun e he => nomatch he⟩
  | cons b rest ih =>
    cases k with
    | nil =>
      refine iff_of_false (by simp) fun h => ?_
      exact absurd h.1 (not_le.mpr (nil_lt_cons b rest))
    | cons c k =>
      rw [cons_prefix_cons, ih, cons_le_cons_iff]
      cases hend : trimmedEnd rest with
      | some e =>
        simp only [trimmedEnd, hend, Option.some.injEq, forall_eq',
          cons_lt_cons_iff]
        constructor
        · rintro ⟨rfl, hle, hlt⟩
          exact ⟨.inr ⟨rfl, hle⟩, .inr ⟨rfl, hlt⟩⟩
        · rintro ⟨hbc | ⟨rfl, hle⟩, hcb | ⟨hceq, hlt⟩⟩
          · exact absurd hbc hcb.asymm
          · exact absurd hbc (hceq ▸ lt_irrefl _)
          · exact absurd hcb (lt_irrefl _)
          · exact ⟨rfl, hle, hlt⟩
      | none =>
        by_cases hb : b = 255
        · have hfull : ¬ b < c := hb ▸ not_lt.mpr (le_full c)
          simp only [trimmedEnd, hend, if_pos hb, hfull, false_or, reduceCtorEq,
            false_implies, implies_true, and_true]
        · simp only [trimmedEnd, hend, if_neg hb, Option.some.injEq, forall_eq',
            cons_lt_cons_iff, reduceCtorEq, false_implies, implies_true, and_true]
          constructor
          · rintro ⟨rfl, hle⟩
            exact ⟨.inr ⟨rfl, hle⟩, .inl (lt_add_one_of_ne hb)⟩
          · rintro ⟨hbc | heq, hc | ⟨-, hk⟩⟩
            · exact absurd (le_of_lt_add_one hb hc) (not_le.mpr hbc)
            · exact absurd hk (not_lt_nil k)
            · exact heq
            · exact heq

theorem append_le_append_iff {l : List UInt8} : l ++ u ≤ l ++ v ↔ u ≤ v := by
  induction l with
  | nil => exact Iff.rfl
  | cons b l ih =>
    rw [cons_append, cons_append, cons_le_cons_iff]
    simpa using ih

/-- The lengths come first in the order of the keys. -/
theorem length_encode_le_of_le {w : Width} {x y : Part} (hx : x.Fits w) (hy : y.Fits w)
    (h : x.encode ++ u ≤ y.encode ++ v) : x.encode.length ≤ y.encode.length := by
  match x, y, w, hx, hy with
  | .raw a, .raw b, .bytes n, hx, hy => exact (hx.trans hy.symm).le
  | .counted a, .counted b, .counted, hx, hy =>
    change a.length < 65536 at hx
    change b.length < 65536 at hy
    simp only [Part.encode, cons_append, cons_le_cons_iff, UInt8.lt_iff_toNat_lt,
      ← UInt8.toNat_inj, UInt8.toNat_ofNat'] at h
    simp only [Part.encode, length_cons]
    omega

theorem length_encodeAll {ns : List ℕ}
    (h : List.Forall₂ Part.Fits xs (ns.map Width.bytes)) : (encodeAll xs).length = ns.sum := by
  induction ns generalizing xs with
  | nil =>
    obtain _ | _ := h
    rfl
  | cons n ns ih =>
    obtain _ | @⟨x, _, xs, _, hx, hxs⟩ := h
    have hlength : x.encode.length = n := by
      match x, hx with
      | .raw b, hx => exact hx
    rw [encodeAll, flatMap_cons, length_append, hlength, sum_cons]
    exact congrArg (n + ·) (ih hxs)

/-- A key that comes after some first components is no shorter than they are, provided
that only the first of them is of variable width. -/
theorem length_le_of_le {w : Width} {ns : List ℕ} {x y : Part} {ys zs : List Part}
    (hx : x.Fits w) (hy : y.Fits w) (hxs : List.Forall₂ Part.Fits xs (ns.map Width.bytes))
    (hys : List.Forall₂ Part.Fits ys (ns.map Width.bytes))
    (hle : encodeAll (x :: xs) ≤ encodeAll (y :: (ys ++ zs))) :
    (encodeAll (x :: xs)).length ≤ (encodeAll (y :: (ys ++ zs))).length := by
  have hfirst := length_encode_le_of_le hx hy hle
  have hxlen : (xs.flatMap Part.encode).length = ns.sum := length_encodeAll hxs
  have hylen : (ys.flatMap Part.encode).length = ns.sum := length_encodeAll hys
  simp only [encodeAll, flatMap_cons, flatMap_append, length_append]
  omega

end ByteKeys
