import MirageNode.Lib.Wildcard

/-!
# Block patterns

A user blocks communities by patterns in which `*` stands for any text. The chain matched
them in `module/legacy_mobile.go`, the web backend does in `web/backend/community_glob.py`,
both by one walk from left to right (`Wildcard.greedyMatch`). They differ in how they look
for the next literal: Go searches a slice and adds the offset, Python searches from a place.

Go reads the bytes of a text and Python its characters. For ASCII these are the same.
-/

namespace MirageNode

open Wildcard

/-- `strings.Index(s[pos:], part)`, counted from the start of `s`. -/
def goIndex (s part : List UInt8) (pos : ℕ) : Option ℕ := (find part (s.drop pos)).map (pos + ·)

/-- `s.find(part, pos)`. -/
def pyFind (s part : List Char) (pos : ℕ) : Option ℕ :=
  if pos > s.length then none else (find part (s.drop pos)).map (pos + ·)

def legacyCommunityMatchesPattern (community pattern : List UInt8) : Bool :=
  greedyMatch (goIndex community) 42 community pattern

def communityMatchesPattern (community pattern : List Char) : Bool :=
  greedyMatch (pyFind community) '*' community pattern

/-! ## ASCII texts -/

/-- An ASCII character. -/
abbrev AsciiChar := Fin 128

/-- `*`. -/
def asciiStar : AsciiChar := 42

/-- The byte of a character. -/
def AsciiChar.byte (c : AsciiChar) : UInt8 := UInt8.ofNat c

/-- The character as Python reads it. -/
def AsciiChar.char (c : AsciiChar) : Char := Char.ofNat c

theorem AsciiChar.byte_injective : Function.Injective AsciiChar.byte := by
  have hback : Function.LeftInverse (fun b : UInt8 => Fin.ofNat 128 b.toNat) AsciiChar.byte := by
    unfold Function.LeftInverse
    decide
  exact hback.injective

theorem AsciiChar.char_injective : Function.Injective AsciiChar.char := by
  have hback : Function.LeftInverse (fun c : Char => Fin.ofNat 128 c.toNat) AsciiChar.char := by
    unfold Function.LeftInverse
    decide
  exact hback.injective

/-- Both matchers return true exactly when the community is the pattern with every `*`
replaced by some text. -/
theorem block_patterns_match (c p : List AsciiChar) :
    (legacyCommunityMatchesPattern (c.map AsciiChar.byte) (p.map AsciiChar.byte) = true ↔
      Fills asciiStar c p) ∧
    (communityMatchesPattern (c.map AsciiChar.char) (p.map AsciiChar.char) = true ↔
      Fills asciiStar c p) := by
  constructor
  · have hsearch : Searches (goIndex (c.map AsciiChar.byte)) (c.map AsciiChar.byte) :=
      fun _ _ _ => rfl
    have hstar : AsciiChar.byte asciiStar = 42 := by decide
    rw [legacyCommunityMatchesPattern, greedyMatch_iff hsearch, ← hstar,
      fills_map_iff AsciiChar.byte_injective]
  · have hsearch : Searches (pyFind (c.map AsciiChar.char)) (c.map AsciiChar.char) :=
      fun _ _ hpos => if_neg (not_lt.mpr hpos)
    have hstar : AsciiChar.char asciiStar = '*' := by decide
    rw [communityMatchesPattern, greedyMatch_iff hsearch, ← hstar,
      fills_map_iff AsciiChar.char_injective]

/-- `a*ab` does not match `ab`: the two literals may not overlap. -/
example : legacyCommunityMatchesPattern [97, 98] [97, 42, 97, 98] = false ∧
    legacyCommunityMatchesPattern [97, 97, 98] [97, 42, 97, 98] = true := by
  decide

end MirageNode
