import SalientGraph.Bytes
import SalientGraph.Decimal.Numeral
import SalientGraph.Json.Document

/-!
# Tokens of JSON

The first half of reading: the characters of a text are cut into brackets, commas,
colons and scalars. A number and a quoted text are each cut off as a whole and
then interpreted. Every token takes at least one character (`length_cutToken`), which is
why scanning ends.
-/

namespace SalientGraph
namespace Json

inductive Token where
  | openArray
  | closeArray
  | openObject
  | closeObject
  | comma
  | colon
  | scalar (d : Document)
  | text (s : Option String)

/-- The blanks that may stand between tokens. -/
def isGap (c : Char) : Bool :=
  c = ' ' || c = '\n' || c = '\t' || c = '\r'

/-! ## Quoted texts -/

/-- Cuts a text at its closing quote, given the characters behind the opening one. A control
character must be escaped. -/
def splitQuoted : List Char → Option (List Char × List Char)
  | [] => none
  | '"' :: rest => some ([], rest)
  | '\\' :: c :: rest => (splitQuoted rest).map fun cut => ('\\' :: c :: cut.1, cut.2)
  | c :: rest =>
    if c.toNat < 32 then none else (splitQuoted rest).map fun cut => (c :: cut.1, cut.2)

theorem length_splitQuoted {cs body rest : List Char} (h : splitQuoted cs = some (body, rest)) :
    rest.length < cs.length := by
  fun_induction splitQuoted cs generalizing body rest with
  | case1 => simp at h
  | case2 r =>
    simp only [Option.some.injEq, Prod.mk.injEq] at h
    simp [← h.2]
  | case3 c r ih =>
    obtain ⟨⟨b, t⟩, hcut, heq⟩ := Option.map_eq_some_iff.1 h
    simp only [Prod.mk.injEq] at heq
    have := ih hcut
    simp only [List.length_cons]
    rw [← heq.2]
    omega
  | case4 => simp at h
  | case5 c r _ _ _ ih =>
    obtain ⟨⟨b, t⟩, hcut, heq⟩ := Option.map_eq_some_iff.1 h
    simp only [Prod.mk.injEq] at heq
    have := ih hcut
    simp only [List.length_cons]
    rw [← heq.2]
    omega

/-- A piece of a quoted text: a character, or a 16-bit unit written with four hexadecimal digits. -/
inductive Piece where
  | char (c : Char)
  | unit (n : Nat)

/-- The pieces of a quoted text. -/
def pieces : List Char → Option (List Piece)
  | [] => some []
  | '\\' :: 'u' :: a :: b :: c :: d :: rest => do
    let unit := ((← Bytes.hexValue? a) * 16 + (← Bytes.hexValue? b)) * 256
      + ((← Bytes.hexValue? c) * 16 + (← Bytes.hexValue? d))
    let more ← pieces rest
    some (.unit unit :: more)
  | '\\' :: e :: rest => do
    let c ←
      match e with
      | '"' => some '"'
      | '\\' => some '\\'
      | '/' => some '/'
      | 'b' => some (Char.ofNat 8)
      | 'f' => some (Char.ofNat 12)
      | 'n' => some '\n'
      | 'r' => some '\r'
      | 't' => some '\t'
      | _ => none
    let more ← pieces rest
    some (.char c :: more)
  | '\\' :: [] => none
  | c :: rest => (pieces rest).map (.char c :: ·)

/-- The characters that pieces spell. Two units that form a surrogate pair are one character; half
of a pair is none. -/
def spell : List Piece → Option (List Char)
  | [] => some []
  | .char c :: rest => (spell rest).map (c :: ·)
  | .unit high :: .unit low :: rest =>
    if 0xD800 ≤ high ∧ high < 0xDC00 then
      if 0xDC00 ≤ low ∧ low < 0xE000 then
        (spell rest).map (Char.ofNat (0x10000 + (high - 0xD800) * 0x400 + (low - 0xDC00)) :: ·)
      else none
    else if 0xDC00 ≤ high ∧ high < 0xE000 then none
    else (spell (.unit low :: rest)).map (Char.ofNat high :: ·)
  | .unit n :: rest =>
    if 0xD800 ≤ n ∧ n < 0xE000 then none else (spell rest).map (Char.ofNat n :: ·)

/-- The text token for what stands between two quotes. -/
def quoted? (body : List Char) : Option Token :=
  (pieces body).map fun ps => .text ((spell ps).map String.ofList)

/-! ## Numbers -/

/-- The value of a decimal digit. -/
def digitValue (c : Char) : Nat :=
  c.toNat - 48

/-- The leading digits and what stands behind them. -/
def splitDigits (cs : List Char) : List Char × List Char :=
  (cs.takeWhile Char.isDigit, cs.dropWhile Char.isDigit)

/-- The digits behind a point, none if there is no point; a point needs a digit. -/
def splitFraction (cs : List Char) : Option (List Char × List Char) :=
  match cs with
  | '.' :: rest =>
    let cut := splitDigits rest
    if cut.1.isEmpty then none else some cut
  | _ => some ([], cs)

/-- The sign that may stand in front of the digits of an exponent. -/
def splitSign (cs : List Char) : Bool × List Char :=
  match cs with
  | '-' :: rest => (true, rest)
  | '+' :: rest => (false, rest)
  | _ => (false, cs)

/-- The exponent, if one is written; it needs a digit. -/
def splitExponent (cs : List Char) : Option (Option Int × List Char) :=
  match cs with
  | c :: rest =>
    if c = 'e' ∨ c = 'E' then
      let signed := splitSign rest
      let cut := splitDigits signed.2
      if cut.1.isEmpty then none
      else
        let magnitude : Nat := cut.1.foldl (fun n d => n * 10 + digitValue d) 0
        some (some (if signed.1 then -(magnitude : Int) else magnitude), cut.2)
    else some (none, cs)
  | [] => some (none, [])

/-- Cuts a number off the front of a text. Its digits before the point start with a zero only if
that is all of them. -/
def splitNumeral (negative : Bool) (cs : List Char) : Option (Decimal.Numeral × List Char) := do
  let (whole, rest) := splitDigits cs
  let fraction ← splitFraction rest
  let exponent ← splitExponent fraction.2
  match whole with
  | [] => none
  | '0' :: _ :: _ => none
  | _ =>
    some (⟨negative, whole.map digitValue, fraction.1.map digitValue, exponent.1⟩, exponent.2)

/-- The number that a numeral denotes: a whole one if it is written so and fits 64 bits, a double
otherwise. A negative zero is a double. -/
def number? (n : Decimal.Numeral) : Option JsonNumber :=
  let double := n.toFloat?.map .double
  if n.isWhole then
    match n.whole64? with
    | none => double
    | some v =>
      if !n.negative then some (.whole v)
      else if v = 0 ∨ 0x8000000000000000 < v then some (.double (-(UInt64.ofNat v).toFloat))
      else some (.whole (-(v : Int)))
  else double

theorem length_splitDigits (cs : List Char) : (splitDigits cs).2.length ≤ cs.length :=
  (List.dropWhile_sublist _).length_le

theorem length_splitFraction {cs : List Char} {cut : List Char × List Char}
    (h : splitFraction cs = some cut) : cut.2.length ≤ cs.length := by
  unfold splitFraction at h
  split at h
  · next rest =>
    simp only at h
    split at h
    · simp at h
    · simp only [Option.some.injEq] at h
      have := length_splitDigits rest
      rw [← h]
      simp only [List.length_cons]
      omega
  · simp only [Option.some.injEq] at h
    simp [← h]

theorem length_splitSign (cs : List Char) : (splitSign cs).2.length ≤ cs.length := by
  unfold splitSign
  split <;> simp

theorem length_splitExponent {cs : List Char} {cut : Option Int × List Char}
    (h : splitExponent cs = some cut) : cut.2.length ≤ cs.length := by
  unfold splitExponent at h
  split at h
  · next c rest =>
    split at h
    · simp only at h
      split at h
      · simp at h
      · simp only [Option.some.injEq] at h
        have h₁ := length_splitDigits (splitSign rest).2
        have h₂ := length_splitSign rest
        rw [← h]
        simp only [List.length_cons]
        omega
    · simp only [Option.some.injEq] at h
      simp [← h]
  · simp only [Option.some.injEq] at h
    simp [← h]

theorem length_splitDigits_lt {cs : List Char} (h : (splitDigits cs).1 ≠ []) :
    (splitDigits cs).2.length < cs.length := by
  have hsum := congrArg List.length (List.takeWhile_append_dropWhile (p := Char.isDigit) (l := cs))
  have hpos := List.length_pos_iff.2 h
  simp only [splitDigits, List.length_append] at hsum hpos ⊢
  omega

theorem length_splitNumeral {negative : Bool} {cs rest : List Char} {n : Decimal.Numeral}
    (h : splitNumeral negative cs = some (n, rest)) : rest.length < cs.length := by
  unfold splitNumeral at h
  simp only [Option.bind_eq_bind, Option.bind_eq_some_iff] at h
  obtain ⟨fraction, hf, exponent, he, h⟩ := h
  have h₂ := length_splitFraction hf
  have h₃ := length_splitExponent he
  split at h
  · simp at h
  · simp at h
  · next hnil _ =>
    have h₁ := length_splitDigits_lt hnil
    simp only [Option.some.injEq, Prod.mk.injEq] at h
    rw [← h.2]
    omega

/-! ## Cutting a text into tokens -/

/-- The token that starts with `c`, and the characters behind it. -/
def cutToken (c : Char) (cs : List Char) : Option (Token × List Char) :=
  match c with
  | '[' => some (.openArray, cs)
  | ']' => some (.closeArray, cs)
  | '{' => some (.openObject, cs)
  | '}' => some (.closeObject, cs)
  | ',' => some (.comma, cs)
  | ':' => some (.colon, cs)
  | '"' => do
    let cut ← splitQuoted cs
    let token ← quoted? cut.1
    some (token, cut.2)
  | '-' => (splitNumeral true cs).map fun cut => (.scalar (.number (number? cut.1)), cut.2)
  | 'n' =>
    match cs with
    | 'u' :: 'l' :: 'l' :: rest => some (.scalar .null, rest)
    | _ => none
  | 't' =>
    match cs with
    | 'r' :: 'u' :: 'e' :: rest => some (.scalar (.bool true), rest)
    | _ => none
  | 'f' =>
    match cs with
    | 'a' :: 'l' :: 's' :: 'e' :: rest => some (.scalar (.bool false), rest)
    | _ => none
  | _ =>
    if c.isDigit then
      (splitNumeral false (c :: cs)).map fun cut => (.scalar (.number (number? cut.1)), cut.2)
    else none

theorem length_cutToken {c : Char} {cs rest : List Char} {t : Token}
    (h : cutToken c cs = some (t, rest)) : rest.length < cs.length + 1 := by
  unfold cutToken at h
  split at h
  case h_7 =>
    simp only [Option.bind_eq_bind, Option.bind_eq_some_iff] at h
    obtain ⟨cut, hcut, token, _, h⟩ := h
    simp only [Option.some.injEq, Prod.mk.injEq] at h
    have := length_splitQuoted hcut
    rw [← h.2]
    omega
  case h_8 =>
    obtain ⟨cut, hcut, heq⟩ := Option.map_eq_some_iff.1 h
    simp only [Prod.mk.injEq] at heq
    have := length_splitNumeral hcut
    rw [← heq.2]
    omega
  case h_12 =>
    split at h
    · obtain ⟨cut, hcut, heq⟩ := Option.map_eq_some_iff.1 h
      simp only [Prod.mk.injEq] at heq
      have := length_splitNumeral hcut
      simp only [List.length_cons] at this
      rw [← heq.2]
      omega
    · simp at h
  all_goals
    first
    | (simp only [Option.some.injEq, Prod.mk.injEq] at h
       rw [← h.2]
       omega)
    | (split at h
       · simp only [Option.some.injEq, Prod.mk.injEq] at h
         rw [← h.2]
         simp only [List.length_cons]
         omega
       · simp at h)

/-- The tokens of a text. -/
def tokens : List Char → Option (List Token)
  | [] => some []
  | c :: cs =>
    if isGap c then tokens cs
    else
      match _ : cutToken c cs with
      | none => none
      | some (t, rest) => (tokens rest).map (t :: ·)
termination_by cs => cs.length
decreasing_by
  · simp
  · exact length_cutToken ‹_›

end Json
end SalientGraph
