import SalientGraph.Json.Reader
import SalientGraph.Json.Writer

/-!
# Quoted texts are read as they are written

A writer escapes quotes, backslashes and control characters, each by itself, and the
reader takes the pieces of a quoted text apart again: the text ends where it was closed,
and it spells the characters that were written.
-/

namespace SalientGraph
namespace Json

/-! ## Tokens -/

/-- Whatever token is cut off comes first. -/
theorem tokens_cons {c : Char} {cs rest : List Char} {t : Token} (hgap : isGap c = false)
    (hcut : cutToken c cs = some (t, rest)) : tokens (c :: cs) = (tokens rest).map (t :: ·) := by
  rw [tokens, if_neg (by rw [hgap]; exact Bool.false_ne_true)]
  split
  · rename_i hnone
    rw [hnone] at hcut
    contradiction
  · rename_i t' rest' hsome
    rw [hsome] at hcut
    cases hcut
    rfl

/-! ## Escapes -/

/-- What stands in a quoted text as it is. -/
structure Plain (c : Char) : Prop where
  unquoting : c ≠ '"'
  unescaping : c ≠ '\\'
  shown : ¬ c.toNat < 32

theorem plain_hexDigit {n : Nat} (h : n < 16) : Plain (Bytes.hexDigit n) := by
  have hdigits : ∀ n : Fin 16, Bytes.hexDigit n ≠ '"' ∧ Bytes.hexDigit n ≠ '\\' ∧
      ¬ (Bytes.hexDigit n).toNat < 32 := by decide
  obtain ⟨hquote, hescape, hshown⟩ := hdigits ⟨n, h⟩
  exact ⟨hquote, hescape, hshown⟩

theorem hexValue?_hexDigit {n : Nat} (h : n < 16) : Bytes.hexValue? (Bytes.hexDigit n) = some n := by
  have hdigits : ∀ n : Fin 16, Bytes.hexValue? (Bytes.hexDigit n) = some n.val := by decide
  exact hdigits ⟨n, h⟩

/-- The letters behind a backslash, each with what it stands for. -/
def shortEscapes : List (Char × Char) :=
  [('"', '"'), ('\\', '\\'), ('n', '\n'), ('r', '\r'), ('t', '\t'), ('b', Char.ofNat 8),
    ('f', Char.ofNat 12)]

/-- A character is written behind a backslash, as its number behind a backslash, or as it is. -/
theorem escape_cases (c : Char) :
    (∃ e, (e, c) ∈ shortEscapes ∧ escape c = ['\\', e]) ∨
      (c.toNat < 32 ∧ escape c = ['\\', 'u', '0', '0', Bytes.hexDigit (c.toNat / 16),
        Bytes.hexDigit (c.toNat % 16)]) ∨
      (Plain c ∧ escape c = [c]) := by
  have hchar : ∀ n, c.toNat = n → Char.ofNat n = c := by
    rintro n rfl
    exact Char.ofNat_toNat c
  unfold escape
  split
  · exact .inl ⟨'"', by decide, rfl⟩
  · exact .inl ⟨'\\', by decide, rfl⟩
  · exact .inl ⟨'n', by decide, rfl⟩
  · exact .inl ⟨'r', by decide, rfl⟩
  · exact .inl ⟨'t', by decide, rfl⟩
  · rename_i hquote hescape _ _ _
    split
    · rename_i hbell
      rw [← hchar 8 hbell]
      exact .inl ⟨'b', by decide, rfl⟩
    · split
      · rename_i hfeed
        rw [← hchar 12 hfeed]
        exact .inl ⟨'f', by decide, rfl⟩
      · split
        · rename_i hcontrol
          exact .inr (.inl ⟨hcontrol, rfl⟩)
        · rename_i hshown
          exact .inr (.inr ⟨⟨hquote, hescape, hshown⟩, rfl⟩)

/-! ## Where a text ends -/

theorem splitQuoted_plain {c : Char} (h : Plain c) (cs : List Char) :
    splitQuoted (c :: cs) = (splitQuoted cs).map fun cut => (c :: cut.1, cut.2) := by
  rw [splitQuoted]
  · exact if_neg h.shown
  · exact h.unquoting
  · intro _ _ hescape
    exact absurd hescape h.unescaping

theorem splitQuoted_backslash (c : Char) (cs : List Char) :
    splitQuoted ('\\' :: c :: cs) =
      (splitQuoted cs).map fun cut => ('\\' :: c :: cut.1, cut.2) := by
  rw [splitQuoted]

/-- An escaped character does not end a text. -/
theorem splitQuoted_escape (c : Char) (cs : List Char) :
    splitQuoted (escape c ++ cs) =
      (splitQuoted cs).map fun cut => (escape c ++ cut.1, cut.2) := by
  rcases escape_cases c with ⟨e, -, hc⟩ | ⟨hcontrol, hc⟩ | ⟨hplain, hc⟩
  · rw [hc]
    exact splitQuoted_backslash e cs
  · have hzero : Plain '0' := ⟨by decide, by decide, by decide⟩
    have hhigh : Plain (Bytes.hexDigit (c.toNat / 16)) := plain_hexDigit (by omega)
    have hlow : Plain (Bytes.hexDigit (c.toNat % 16)) := plain_hexDigit (by omega)
    rw [hc]
    show splitQuoted ('\\' :: 'u' :: '0' :: '0' :: _ :: _ :: cs) = _
    rw [splitQuoted_backslash, splitQuoted_plain hzero, splitQuoted_plain hzero,
      splitQuoted_plain hhigh, splitQuoted_plain hlow]
    cases splitQuoted cs <;> rfl
  · rw [hc]
    exact splitQuoted_plain hplain cs

theorem splitQuoted_flatMap (cs rest : List Char) :
    splitQuoted (cs.flatMap escape ++ '"' :: rest) = some (cs.flatMap escape, rest) := by
  induction cs with
  | nil => rw [List.flatMap_nil, List.nil_append, splitQuoted]
  | cons c cs ih =>
      rw [List.flatMap_cons, List.append_assoc, splitQuoted_escape, ih]
      rfl

/-! ## What a text spells -/

/-- A piece of a text that is read where a character was escaped, and that spells it. -/
structure PieceOf (c : Char) (p : Piece) : Prop where
  read : ∀ cs, pieces (escape c ++ cs) = (pieces cs).map (p :: ·)
  spelled : ∀ ps, spell (p :: ps) = (spell ps).map (c :: ·)

theorem pieces_plain {c : Char} (h : Plain c) (cs : List Char) :
    pieces (c :: cs) = (pieces cs).map (.char c :: ·) := by
  rw [pieces]
  · intro _ _ _ _ _ hescape
    exact absurd hescape h.unescaping
  · intro _ _ hescape
    exact absurd hescape h.unescaping
  · intro hescape
    exact absurd hescape h.unescaping

theorem pieces_unit {high low : Nat} (hhigh : high < 16) (hlow : low < 16) (cs : List Char) :
    pieces ('\\' :: 'u' :: '0' :: '0' :: Bytes.hexDigit high :: Bytes.hexDigit low :: cs) =
      (pieces cs).map (.unit (high * 16 + low) :: ·) := by
  have hzero : Bytes.hexValue? '0' = some 0 := by decide
  rw [pieces, hzero, hexValue?_hexDigit hhigh, hexValue?_hexDigit hlow]
  simp only [Option.bind_eq_bind, Option.bind_some, Nat.zero_mul, Nat.zero_add]
  cases pieces cs <;> rfl

/-- A unit that is no half of a pair is a character. -/
theorem spell_unit {n : Nat} (h : n < 0xD800) (ps : List Piece) :
    spell (.unit n :: ps) = (spell ps).map (Char.ofNat n :: ·) := by
  have hhigh : ¬ (0xD800 ≤ n ∧ n < 0xDC00) := by omega
  have hlow : ¬ (0xDC00 ≤ n ∧ n < 0xE000) := by omega
  have hhalf : ¬ (0xD800 ≤ n ∧ n < 0xE000) := by omega
  rcases ps with _ | ⟨_ | _, _⟩
  · simp only [spell, if_neg hhalf]
  · simp only [spell, if_neg hhalf]
  · simp only [spell, if_neg hhigh, if_neg hlow]

theorem exists_pieceOf (c : Char) : ∃ p, PieceOf c p := by
  rcases escape_cases c with ⟨e, he, hc⟩ | ⟨hcontrol, hc⟩ | ⟨hplain, hc⟩
  · refine ⟨.char c, ?_, fun _ => rfl⟩
    intro cs
    rw [hc]
    simp only [shortEscapes, List.mem_cons, Prod.mk.injEq, List.not_mem_nil, or_false] at he
    rcases he with ⟨rfl, rfl⟩ | ⟨rfl, rfl⟩ | ⟨rfl, rfl⟩ | ⟨rfl, rfl⟩ | ⟨rfl, rfl⟩ | ⟨rfl, rfl⟩ |
      ⟨rfl, rfl⟩
    all_goals
      show (pieces cs).bind _ = _
      rw [Option.map_eq_bind]
      rfl
  · refine ⟨.unit c.toNat, ?_, ?_⟩
    · intro cs
      rw [hc]
      show pieces ('\\' :: 'u' :: '0' :: '0' :: _ :: _ :: cs) = _
      rw [pieces_unit (by omega) (by omega), Nat.div_add_mod']
    · intro ps
      rw [spell_unit (by omega), Char.ofNat_toNat]
  · refine ⟨.char c, ?_, fun _ => rfl⟩
    intro cs
    rw [hc]
    exact pieces_plain hplain cs

theorem exists_pieces_flatMap (cs : List Char) :
    ∃ ps, pieces (cs.flatMap escape) = some ps ∧ spell ps = some cs := by
  induction cs with
  | nil => exact ⟨[], rfl, rfl⟩
  | cons c cs ih =>
      obtain ⟨ps, hread, hspelled⟩ := ih
      obtain ⟨p, hp⟩ := exists_pieceOf c
      refine ⟨p :: ps, ?_, ?_⟩
      · rw [List.flatMap_cons, hp.read, hread]
        rfl
      · rw [hp.spelled, hspelled]
        rfl

/-- A written text is one token, the text itself. -/
theorem tokens_writeText (s : String) (rest : List Char) :
    tokens (writeText s ++ rest) = (tokens rest).map (.text (some s) :: ·) := by
  obtain ⟨ps, hread, hspelled⟩ := exists_pieces_flatMap s.toList
  have hwritten : writeText s ++ rest = '"' :: (s.toList.flatMap escape ++ '"' :: rest) := by
    simp [writeText]
  have hcut : cutToken '"' (s.toList.flatMap escape ++ '"' :: rest) =
      some (.text (some s), rest) := by
    show ((splitQuoted _).bind fun cut => (quoted? cut.1).bind fun token => some (token, cut.2)) = _
    rw [splitQuoted_flatMap]
    show ((quoted? (s.toList.flatMap escape)).bind fun token => some (token, rest)) = _
    rw [quoted?, hread]
    show some (Token.text ((spell ps).map String.ofList), rest) = _
    rw [hspelled, Option.map_some, String.ofList_toList]
  rw [hwritten]
  exact tokens_cons rfl hcut

end Json
end SalientGraph
