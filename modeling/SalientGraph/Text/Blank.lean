/-!
# Blank text

Which characters count as white space, and when a text holds nothing else.
An identifier, a relation or a query that is blank is treated as missing.
-/

namespace SalientGraph
namespace Text

/-- Whether `n` lies in one of the closed ranges, which are given in increasing order. -/
def inRanges (n : Nat) : List (Nat × Nat) → Bool
  | [] => false
  | (first, last) :: rest =>
    if n < first then false else if n ≤ last then true else inRanges n rest

/-- The code points of white space, as increasing closed ranges. -/
def whiteSpaceRanges : List (Nat × Nat) := [
  (0x9, 0xD), (0x20, 0x20), (0x85, 0x85), (0xA0, 0xA0), (0x1680, 0x1680), (0x2000, 0x200A),
  (0x2028, 0x2029), (0x202F, 0x202F), (0x205F, 0x205F), (0x3000, 0x3000)]

/-- White space in the sense of the character property of that name. -/
def isWhiteSpace (c : Char) : Bool :=
  inRanges c.toNat whiteSpaceRanges

/-- A text is blank when it holds no character other than white space. -/
def isBlank (s : String) : Bool :=
  s.toList.all isWhiteSpace

@[simp] theorem isBlank_empty : isBlank "" = true := by
  simp [isBlank]

theorem isBlank_eq_true_iff (s : String) :
    isBlank s = true ↔ ∀ c ∈ s.toList, isWhiteSpace c = true := by
  simp [isBlank]

/-- Every white-space character of the basic class is one here. -/
theorem isWhiteSpace_of_isWhitespace {c : Char} (h : c.isWhitespace = true) :
    isWhiteSpace c = true := by
  simp only [Char.isWhitespace, Bool.or_eq_true, decide_eq_true_eq] at h
  rcases h with ((rfl | rfl) | rfl) | rfl <;> decide

end Text
end SalientGraph
