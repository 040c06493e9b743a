import Mathlib.Algebra.Group.Int.Defs
import Mathlib.Algebra.Group.Nat.Defs
import Mathlib.Data.Bool.AllAny
import Mathlib.Data.List.TakeWhile
import SalientGraph.Proofs.Json.Texts

/-!
# Numbers are read as they are written

A number ends where neither a digit nor a point nor an exponent follows, so whether it is
read as it is written does not depend on what stands behind it. Whole numbers of 64 bits
are read as they are written. A double need not be: it is put together from its digits in
double arithmetic, which rounds once more.
-/

namespace SalientGraph

/-- What is written of the number by itself is read as this number. -/
def JsonNumber.Legible (n : JsonNumber) : Prop :=
  Json.parse? (Json.number n).render = some (.number n)

namespace Json

/-! ## Where a number ends -/

/-- What stands here does not continue a number. -/
def EndsNumber : List Char → Prop
  | [] => True
  | c :: _ => c.isDigit = false ∧ c ≠ '.' ∧ c ≠ 'e' ∧ c ≠ 'E'

theorem splitFraction_point (cs : List Char) :
    splitFraction ('.' :: cs) =
      if (splitDigits cs).1.isEmpty then none else some (splitDigits cs) :=
  rfl

theorem splitFraction_of_ne {c : Char} (h : c ≠ '.') (cs : List Char) :
    splitFraction (c :: cs) = some ([], c :: cs) := by
  rw [splitFraction]
  intro _ hpoint
  exact h (List.cons.inj hpoint).1

theorem splitSign_of_ne {c : Char} (hminus : c ≠ '-') (hplus : c ≠ '+') (cs : List Char) :
    splitSign (c :: cs) = (false, c :: cs) := by
  rw [splitSign]
  · intro _ h
    exact hminus (List.cons.inj h).1
  · intro _ h
    exact hplus (List.cons.inj h).1

/-- Whatever follows, the sign is in front. -/
theorem splitSign_append {cs : List Char} (h : cs ≠ []) (rest : List Char) :
    splitSign (cs ++ rest) = ((splitSign cs).1, (splitSign cs).2 ++ rest) := by
  cases cs with
  | nil => contradiction
  | cons c cs =>
      by_cases hminus : c = '-'
      · subst hminus
        rfl
      · by_cases hplus : c = '+'
        · subst hplus
          rfl
        · rw [List.cons_append, splitSign_of_ne hminus hplus, splitSign_of_ne hminus hplus]
          rfl

section
variable {rest : List Char} (hrest : EndsNumber rest)
include hrest

theorem splitDigits_append (cs : List Char) :
    splitDigits (cs ++ rest) = ((splitDigits cs).1, (splitDigits cs).2 ++ rest) := by
  induction cs with
  | nil =>
      cases rest with
      | nil => rfl
      | cons c rest => simp [splitDigits, hrest.1]
  | cons c cs ih =>
      by_cases hc : c.isDigit = true
      · simpa [splitDigits, hc] using ih
      · simp [splitDigits, hc]

theorem splitFraction_append {cs : List Char} {cut : List Char × List Char}
    (h : splitFraction cs = some cut) :
    splitFraction (cs ++ rest) = some (cut.1, cut.2 ++ rest) := by
  cases cs with
  | nil =>
      cases h
      cases rest with
      | nil => rfl
      | cons c rest => exact splitFraction_of_ne hrest.2.1 rest
  | cons c cs =>
      by_cases hpoint : c = '.'
      · subst hpoint
        rw [splitFraction_point] at h
        rw [List.cons_append, splitFraction_point, splitDigits_append hrest]
        split at h
        · contradiction
        · rename_i hdigits
          cases h
          exact if_neg hdigits
      · rw [splitFraction_of_ne hpoint] at h
        cases h
        exact splitFraction_of_ne hpoint (cs ++ rest)

theorem splitExponent_append {cs : List Char} {cut : Option Int × List Char}
    (h : splitExponent cs = some cut) :
    splitExponent (cs ++ rest) = some (cut.1, cut.2 ++ rest) := by
  cases cs with
  | nil =>
      cases h
      cases rest with
      | nil => rfl
      | cons c rest => exact if_neg (not_or.2 hrest.2.2)
  | cons c cs =>
      dsimp only [splitExponent, List.cons_append] at h ⊢
      split at h
      · rename_i hexponent
        rw [if_pos hexponent]
        split at h
        · contradiction
        · rename_i hdigits
          have hsome : cs ≠ [] := by
            rintro rfl
            exact hdigits rfl
          cases h
          rw [splitSign_append hsome, splitDigits_append hrest]
          exact if_neg hdigits
      · rename_i hexponent
        cases h
        exact if_neg hexponent

/-- A numeral is cut off no shorter and no longer for what stands behind it. -/
theorem splitNumeral_append {negative : Bool} {cs : List Char}
    {cut : Decimal.Numeral × List Char} (h : splitNumeral negative cs = some cut) :
    splitNumeral negative (cs ++ rest) = some (cut.1, cut.2 ++ rest) := by
  unfold splitNumeral at h ⊢
  rw [splitDigits_append hrest]
  simp only [Option.bind_eq_bind, Option.bind_eq_some_iff] at h
  obtain ⟨fraction, hfraction, exponent, hexponent, h⟩ := h
  simp only [splitFraction_append hrest hfraction, splitExponent_append hrest hexponent,
    Option.bind_eq_bind, Option.bind_some]
  split at h
  · contradiction
  · contradiction
  · cases h
    rfl

end

theorem cutToken_minus (cs : List Char) :
    cutToken '-' cs =
      (splitNumeral true cs).map fun cut => (.scalar (.number (number? cut.1)), cut.2) :=
  rfl

theorem cutToken_digit {c : Char} (h : c.isDigit = true) (cs : List Char) :
    cutToken c cs =
      (splitNumeral false (c :: cs)).map fun cut => (.scalar (.number (number? cut.1)), cut.2) := by
  unfold cutToken
  split
  case h_12 => exact if_pos h
  all_goals exact absurd h (by decide)

/-- A number starts with its sign or with a digit. -/
theorem cases_of_cutToken_number {c : Char} {cs r : List Char} {n : Option JsonNumber}
    (h : cutToken c cs = some (.scalar (.number n), r)) :
    (c = '-' ∧ ∃ m, splitNumeral true cs = some (m, r) ∧ number? m = n) ∨
      (c.isDigit = true ∧ ∃ m, splitNumeral false (c :: cs) = some (m, r) ∧ number? m = n) := by
  by_cases hminus : c = '-'
  · subst hminus
    obtain ⟨⟨m, _⟩, hcut, hnumber⟩ := Option.map_eq_some_iff.1 h
    cases hnumber
    exact .inl ⟨rfl, m, hcut, rfl⟩
  · by_cases hdigit : c.isDigit = true
    · rw [cutToken_digit hdigit] at h
      obtain ⟨⟨m, _⟩, hcut, hnumber⟩ := Option.map_eq_some_iff.1 h
      cases hnumber
      exact .inr ⟨hdigit, m, hcut, rfl⟩
    · unfold cutToken at h
      split at h
      case h_7 =>
        simp only [quoted?, Option.bind_eq_bind, Option.bind_eq_some_iff, Option.map_eq_some_iff] at h
        obtain ⟨_, _, _, ⟨_, _, rfl⟩, h⟩ := h
        cases h
      case h_8 => contradiction
      case h_9 | h_10 | h_11 => split at h <;> cases h
      case h_12 =>
        rw [if_neg hdigit] at h
        cases h
      all_goals cases h

/-- A number that is cut off is cut off whatever stands behind it, if that does not continue it. -/
theorem cutToken_append {c : Char} {cs r : List Char} {n : Option JsonNumber}
    (h : cutToken c cs = some (.scalar (.number n), r)) {rest : List Char}
    (hrest : EndsNumber rest) :
    cutToken c (cs ++ rest) = some (.scalar (.number n), r ++ rest) := by
  rcases cases_of_cutToken_number h with ⟨rfl, m, hcut, rfl⟩ | ⟨hdigit, m, hcut, rfl⟩
  · rw [cutToken_minus, splitNumeral_append hrest hcut]
    rfl
  · rw [cutToken_digit hdigit, ← List.cons_append, splitNumeral_append hrest hcut]
    rfl

/-! ## What is left behind a number -/

theorem splitDigits_suffix (cs : List Char) : (splitDigits cs).2 <:+ cs :=
  List.dropWhile_suffix _

theorem splitFraction_suffix {cs : List Char} {cut : List Char × List Char}
    (h : splitFraction cs = some cut) : cut.2 <:+ cs := by
  unfold splitFraction at h
  split at h
  · dsimp only at h
    split at h
    · contradiction
    · cases h
      exact (splitDigits_suffix _).trans (List.suffix_cons _ _)
  · cases h
    exact List.suffix_rfl

theorem splitSign_suffix (cs : List Char) : (splitSign cs).2 <:+ cs := by
  unfold splitSign
  split
  · exact List.suffix_cons _ _
  · exact List.suffix_cons _ _
  · exact List.suffix_rfl

theorem splitExponent_suffix {cs : List Char} {cut : Option Int × List Char}
    (h : splitExponent cs = some cut) : cut.2 <:+ cs := by
  unfold splitExponent at h
  split at h
  · split at h
    · dsimp only at h
      split at h
      · contradiction
      · cases h
        exact ((splitDigits_suffix _).trans (splitSign_suffix _)).trans (List.suffix_cons _ _)
    · cases h
      exact List.suffix_rfl
  · cases h
    exact List.suffix_rfl

theorem splitNumeral_suffix {negative : Bool} {cs : List Char}
    {cut : Decimal.Numeral × List Char} (h : splitNumeral negative cs = some cut) :
    cut.2 <:+ cs := by
  unfold splitNumeral at h
  simp only [Option.bind_eq_bind, Option.bind_eq_some_iff] at h
  obtain ⟨fraction, hfraction, exponent, hexponent, h⟩ := h
  have hsuffix := (splitExponent_suffix hexponent).trans
    ((splitFraction_suffix hfraction).trans (splitDigits_suffix cs))
  split at h
  · contradiction
  · contradiction
  · cases h
    exact hsuffix

theorem cutToken_suffix {c : Char} {cs r : List Char} {n : Option JsonNumber}
    (h : cutToken c cs = some (.scalar (.number n), r)) : r <:+ c :: cs := by
  rcases cases_of_cutToken_number h with ⟨rfl, m, hcut, -⟩ | ⟨-, m, hcut, -⟩
  · exact (splitNumeral_suffix hcut).trans (List.suffix_cons _ _)
  · exact splitNumeral_suffix hcut

/-! ## The characters of a number -/

/-- The characters that numbers are written with. -/
def Numeric (c : Char) : Prop :=
  c.isDigit = true ∨ c ∈ ['-', '+', '.', 'e', 'n', 'u', 'l']

instance : DecidablePred Numeric := fun c =>
  inferInstanceAs (Decidable (c.isDigit = true ∨ c ∈ ['-', '+', '.', 'e', 'n', 'u', 'l']))

theorem Numeric.isGap {c : Char} (h : Numeric c) : isGap c = false := by
  have hgaps : ∀ g ∈ [' ', '\n', '\t', '\r'], ¬ Numeric g :=
    List.all_iff_forall_prop.1 (by decide)
  rw [Bool.eq_false_iff]
  intro hgap
  have hmem : c ∈ [' ', '\n', '\t', '\r'] := by
    simpa [Json.isGap, or_assoc] using hgap
  exact hgaps c hmem h

/-- A token that starts with the character of a number is no bracket, comma, colon or text. -/
theorem Numeric.scalar {c : Char} (h : Numeric c) {cs r : List Char} {t : Token}
    (hcut : cutToken c cs = some (t, r)) : ∃ d, t = .scalar d := by
  unfold cutToken at hcut
  split at hcut
  case h_1 | h_2 | h_3 | h_4 | h_5 | h_6 | h_7 => exact absurd h (by decide)
  case h_8 =>
    obtain ⟨cut, -, hnumber⟩ := Option.map_eq_some_iff.1 hcut
    cases hnumber
    exact ⟨_, rfl⟩
  case h_9 | h_10 | h_11 =>
    split at hcut
    · cases hcut
      exact ⟨_, rfl⟩
    · contradiction
  case h_12 =>
    split at hcut
    · obtain ⟨cut, -, hnumber⟩ := Option.map_eq_some_iff.1 hcut
      cases hnumber
      exact ⟨_, rfl⟩
    · contradiction

theorem numeric_toDigits (n : Nat) : ∀ c ∈ Nat.toDigits 10 n, Numeric c :=
  fun _ hc => .inl (Nat.isDigit_of_mem_toDigits (by decide) (by decide) hc)

theorem numeric_writeInt (n : Int) : ∀ c ∈ writeInt n, Numeric c := by
  unfold writeInt
  split
  · exact List.forall_mem_cons.2 ⟨.inr (by decide), numeric_toDigits _⟩
  · exact numeric_toDigits _

theorem numeric_writeExponent (n : Int) : ∀ c ∈ writeExponent n, Numeric c := by
  unfold writeExponent
  split
  · exact numeric_writeInt n
  · exact List.forall_mem_cons.2 ⟨.inr (by decide), numeric_writeInt n⟩

theorem numeric_writeScaled (s : Decimal.Scaled) : ∀ c ∈ writeScaled s, Numeric c := by
  have hpoint : Numeric '.' := .inr (by decide)
  have hletter : Numeric 'e' := .inr (by decide)
  have hzero : Numeric '0' := .inl rfl
  have hzeros : ∀ k, ∀ c ∈ List.replicate k '0', Numeric c := by
    intro k c hc
    rw [(List.mem_replicate.1 hc).2]
    exact hzero
  have hdigits : ∀ c ∈ Nat.toDigits 10 s.digits, Numeric c := numeric_toDigits _
  unfold writeScaled
  dsimp only
  split
  · refine List.forall_mem_append.2 ⟨List.forall_mem_append.2 ⟨hdigits, hzeros _⟩, ?_⟩
    exact List.forall_mem_cons.2 ⟨hpoint, List.forall_mem_singleton.2 hzero⟩
  · split
    · refine List.forall_mem_append.2 ⟨fun c hc => hdigits c (List.mem_of_mem_take hc), ?_⟩
      exact List.forall_mem_cons.2 ⟨hpoint, fun c hc => hdigits c (List.mem_of_mem_drop hc)⟩
    · split
      · refine List.forall_mem_append.2 ⟨?_, hdigits⟩
        exact List.forall_mem_cons.2 ⟨hzero, List.forall_mem_cons.2 ⟨hpoint, hzeros _⟩⟩
      · refine List.forall_mem_append.2
          ⟨?_, List.forall_mem_cons.2 ⟨hletter, numeric_writeExponent _⟩⟩
        split
        · exact fun c hc => (List.not_mem_nil hc).elim
        · rename_i d hd
          exact hd ▸ hdigits
        · rename_i d ds _ hd
          have hcons := List.forall_mem_cons.1 (hd ▸ hdigits)
          exact List.forall_mem_cons.2 ⟨hcons.1, List.forall_mem_cons.2 ⟨hpoint, hcons.2⟩⟩

theorem numeric_writeFloat (x : Float) : ∀ c ∈ writeFloat x, Numeric c := by
  have hnull : ∀ c ∈ ['n', 'u', 'l', 'l'], Numeric c :=
    List.all_iff_forall_prop.1 (by decide)
  have hzero : ∀ c ∈ ['0', '.', '0'], Numeric c :=
    List.all_iff_forall_prop.1 (by decide)
  have hmagnitude : ∀ c ∈ (if (Decimal.Magnitude.ofBits x.toBits).m = 0 then ['0', '.', '0']
      else writeScaled (Decimal.Magnitude.ofBits x.toBits).shortest), Numeric c := by
    split
    · exact hzero
    · exact numeric_writeScaled _
  unfold writeFloat
  split
  · exact hnull
  · dsimp only
    split
    · exact hmagnitude
    · exact List.forall_mem_cons.2 ⟨.inr (by decide), hmagnitude⟩

theorem numeric_writeNumber (n : JsonNumber) : ∀ c ∈ writeNumber n, Numeric c := by
  cases n with
  | whole n => exact numeric_writeInt n
  | double x => exact numeric_writeFloat x

/-! ## Legible numbers -/

/-- The reader of a document that is complete takes no token more. -/
theorem finished_of_foldlM {d d' : Document} {ts : List Token}
    (h : ts.foldlM Reader.step (.finished d) = some (.finished d')) : ts = [] ∧ d = d' := by
  cases ts with
  | nil =>
      cases h
      exact ⟨rfl, rfl⟩
  | cons t ts => contradiction

/-- The first token of a text that does not start with a blank. -/
theorem exists_cut_of_tokens {c : Char} {cs : List Char} {ts : List Token} (hgap : isGap c = false)
    (h : tokens (c :: cs) = some ts) :
    ∃ t rest more, cutToken c cs = some (t, rest) ∧ tokens rest = some more ∧ ts = t :: more := by
  rw [tokens, if_neg (by rw [hgap]; exact Bool.false_ne_true)] at h
  split at h
  · contradiction
  · rename_i t rest hcut
    obtain ⟨more, hmore, rfl⟩ := Option.map_eq_some_iff.1 h
    exact ⟨t, rest, more, hcut, hmore, rfl⟩

/-- Only a number is read as a number. -/
theorem eq_number_of_value? {d : Document} {levels : Nat} {n : JsonNumber}
    (h : d.value? levels = some (.number n)) : d = .number (some n) := by
  cases d with
  | number m =>
      obtain ⟨k, rfl, hk⟩ := Option.map_eq_some_iff.1 h
      cases hk
      rfl
  | null | bool => cases h
  | text s =>
      obtain ⟨_, _, hs⟩ := Option.map_eq_some_iff.1 h
      cases hs
  | array items | object members =>
      cases levels with
      | zero => cases h
      | succ inner =>
          obtain ⟨_, _, hs⟩ := Option.map_eq_some_iff.1 h
          cases hs

/-- A legible number is cut off its text as a whole. -/
theorem exists_cut_of_legible {n : JsonNumber} (h : n.Legible) :
    ∃ c cs, writeNumber n = c :: cs ∧ isGap c = false ∧
      cutToken c cs = some (.scalar (.number (some n)), []) := by
  have hnumeric := numeric_writeNumber n
  unfold JsonNumber.Legible parse? Document.parse? at h
  have hwritten : (Json.number n).render.toList = writeNumber n := String.toList_ofList
  rw [hwritten] at h
  simp only [Option.bind_eq_bind, Option.bind_eq_some_iff] at h
  obtain ⟨d, ⟨ts, hts, state, hstate, hd⟩, hvalue⟩ := h
  have hfinished : state = .finished d := by
    cases state <;> first | contradiction | (cases hd; rfl)
  subst hfinished
  cases hcs : writeNumber n with
  | nil =>
      rw [hcs, tokens] at hts
      cases hts
      cases hstate
  | cons c cs =>
      rw [hcs] at hts hnumeric
      have hgap := (hnumeric c List.mem_cons_self).isGap
      obtain ⟨t, rest, more, hcut, hmore, rfl⟩ := exists_cut_of_tokens hgap hts
      obtain ⟨d', rfl⟩ := (hnumeric c List.mem_cons_self).scalar hcut
      obtain ⟨rfl, rfl⟩ := finished_of_foldlM hstate
      obtain rfl := eq_number_of_value? hvalue
      refine ⟨c, cs, rfl, hgap, ?_⟩
      -- no token is left behind the number, so only blanks are, and a number has none
      cases rest with
      | nil => exact hcut
      | cons g rest =>
          have hmem : g ∈ c :: cs := (cutToken_suffix hcut).subset List.mem_cons_self
          have hg := (hnumeric g hmem).isGap
          obtain ⟨_, _, _, _, _, hnone⟩ := exists_cut_of_tokens hg hmore
          contradiction

/-- A legible number is read whatever stands behind it, if that does not continue it. -/
theorem tokens_writeNumber {n : JsonNumber} (h : n.Legible) {rest : List Char}
    (hrest : EndsNumber rest) :
    tokens (writeNumber n ++ rest) = (tokens rest).map (.scalar (.number (some n)) :: ·) := by
  obtain ⟨c, cs, hwritten, hgap, hcut⟩ := exists_cut_of_legible h
  rw [hwritten]
  exact tokens_cons hgap (cutToken_append hcut hrest)

/-! ## Whole numbers -/

/-- Only zero is written with a zero in front. -/
theorem exists_toDigits_eq_cons (n : Nat) :
    ∃ c cs, Nat.toDigits 10 n = c :: cs ∧ (c = '0' → n = 0) := by
  induction n using Nat.strongRecOn with
  | ind n ih =>
      rcases Nat.lt_or_ge n 10 with hsmall | hlarge
      · have hdigits : ∀ n : Fin 10, n.val.digitChar = '0' → n.val = 0 := by decide
        exact ⟨_, [], Nat.toDigits_of_lt_base hsmall, hdigits ⟨n, hsmall⟩⟩
      · obtain ⟨c, cs, hdigits, hzero⟩ := ih (n / 10) (by omega)
        refine ⟨c, cs ++ [(n % 10).digitChar], ?_, ?_⟩
        · rw [Nat.toDigits_of_base_le (by decide) hlarge, hdigits]
          rfl
        · intro hc
          have hnone := hzero hc
          omega

/-- Further digits make a number no smaller. -/
theorem le_foldl_digits (ds : List Nat) : ∀ n, n ≤ ds.foldl (fun n d => n * 10 + d) n := by
  induction ds with
  | nil => exact fun n => Nat.le_refl n
  | cons d ds ih =>
      intro n
      have hlater := ih (n * 10 + d)
      rw [List.foldl_cons]
      omega

/-- Digits are absorbed as long as the number that they spell fits 64 bits. -/
theorem absorb_eq (ds : List Nat) : ∀ n, ds.foldl (fun n d => n * 10 + d) n < 2 ^ 64 →
    Decimal.absorb n ds = (ds.foldl (fun n d => n * 10 + d) n, ds.length) := by
  induction ds with
  | nil => exact fun n _ => rfl
  | cons d ds ih =>
      intro n h
      have hfits : n * 10 + d < 0x10000000000000000 :=
        Nat.lt_of_le_of_lt (le_foldl_digits ds (n * 10 + d)) h
      rw [Decimal.absorb, if_pos hfits, ih (n * 10 + d) h]
      rfl

theorem foldl_toDigits (n : Nat) :
    ((Nat.toDigits 10 n).map digitValue).foldl (fun n d => n * 10 + d) 0 = n := by
  calc ((Nat.toDigits 10 n).map digitValue).foldl (fun n d => n * 10 + d) 0
    _ = (Nat.toDigits 10 n).foldl (fun n c => 10 * n + (c.toNat - '0'.toNat)) 0 := by
      rw [List.foldl_map]
      congr 1
      funext n c
      rw [Nat.mul_comm]
      rfl
    _ = Nat.ofDigitChars 10 (Nat.toDigits 10 n) 0 := Nat.ofDigitChars_eq_foldl.symm
    _ = n := Nat.ofDigitChars_toDigits (by decide) (by decide)

/-- The numeral of a natural number. -/
def numeral (negative : Bool) (n : Nat) : Decimal.Numeral :=
  ⟨negative, (Nat.toDigits 10 n).map digitValue, [], none⟩

theorem whole64?_numeral {negative : Bool} {n : Nat} (h : n < 2 ^ 64) :
    (numeral negative n).whole64? = some n := by
  have habsorb := absorb_eq ((Nat.toDigits 10 n).map digitValue) 0
  rw [foldl_toDigits] at habsorb
  unfold Decimal.Numeral.whole64? numeral
  dsimp only
  rw [habsorb h]
  exact if_pos rfl

theorem splitDigits_toDigits (n : Nat) :
    splitDigits (Nat.toDigits 10 n) = (Nat.toDigits 10 n, []) := by
  have hdigits : ∀ c ∈ Nat.toDigits 10 n, c.isDigit = true :=
    fun _ hc => Nat.isDigit_of_mem_toDigits (by decide) (by decide) hc
  rw [splitDigits, List.takeWhile_eq_self_iff.2 hdigits, List.dropWhile_eq_nil_iff.2 hdigits]

theorem splitNumeral_toDigits (negative : Bool) (n : Nat) :
    splitNumeral negative (Nat.toDigits 10 n) = some (numeral negative n, []) := by
  have hfraction : splitFraction [] = some ([], []) := rfl
  have hexponent : splitExponent [] = some (none, []) := rfl
  obtain ⟨c, cs, hdigits, hzero⟩ := exists_toDigits_eq_cons n
  unfold splitNumeral
  rw [splitDigits_toDigits]
  simp only [hfraction, hexponent, Option.bind_eq_bind, Option.bind_some]
  split
  · rename_i hnil
    exact absurd hnil Nat.toDigits_ne_nil
  · rename_i hlonger
    rw [hdigits] at hlonger
    cases hlonger
    rw [hzero rfl] at hdigits
    cases hdigits
  · rfl

theorem number?_numeral {n : Nat} (h : n < 2 ^ 64) :
    number? (numeral false n) = some (.whole n) := by
  unfold number?
  dsimp only
  rw [whole64?_numeral h]
  rfl

theorem number?_numeral_negative {n : Nat} (hpos : 0 < n) (h : n ≤ 2 ^ 63) :
    number? (numeral true n) = some (.whole (-(n : Int))) := by
  have hwhole : ¬ (n = 0 ∨ 0x8000000000000000 < n) := by omega
  unfold number?
  dsimp only
  rw [whole64?_numeral (by omega)]
  exact if_neg hwhole

/-- A number that is cut off its text as a whole is legible. -/
theorem legible_of_cut {n : JsonNumber} {c : Char} {cs : List Char} (hwritten : writeNumber n = c :: cs)
    (hcut : cutToken c cs = some (.scalar (.number (some n)), [])) : n.Legible := by
  have hgap : isGap c = false := by
    apply (numeric_writeNumber n c _).isGap
    rw [hwritten]
    exact List.mem_cons_self
  have htokens : tokens (Json.number n).render.toList = some [.scalar (.number (some n))] := by
    rw [render, String.toList_ofList]
    show tokens (writeNumber n) = _
    rw [hwritten, tokens_cons hgap hcut, tokens]
    rfl
  unfold JsonNumber.Legible parse? Document.parse?
  rw [htokens]
  rfl

/-- Whole numbers of 64 bits, with or without a sign, are read as they are written. -/
theorem legible_whole {n : Int} (hlow : -2 ^ 63 ≤ n) (hhigh : n < 2 ^ 64) :
    (JsonNumber.whole n).Legible := by
  by_cases hnegative : n < 0
  · have hwritten : writeNumber (.whole n) = '-' :: Nat.toDigits 10 n.natAbs := if_pos hnegative
    apply legible_of_cut hwritten
    have hn : -(n.natAbs : Int) = n := by omega
    rw [cutToken_minus, splitNumeral_toDigits, Option.map_some,
      number?_numeral_negative (by omega) (by omega), hn]
  · obtain ⟨c, cs, hdigits, -⟩ := exists_toDigits_eq_cons n.natAbs
    have hwritten : writeNumber (.whole n) = c :: cs := (if_neg hnegative).trans hdigits
    apply legible_of_cut hwritten
    have hc : c.isDigit = true := by
      apply Nat.isDigit_of_mem_toDigits (b := 10) (n := n.natAbs) (by decide) (by decide)
      rw [hdigits]
      exact List.mem_cons_self
    have hn : (n.natAbs : Int) = n := by omega
    rw [cutToken_digit hc, ← hdigits, splitNumeral_toDigits, Option.map_some,
      number?_numeral (by omega), hn]

/-! ## Doubles -/

/-- The double nearest to `3 · 10 ^ 23`. Three times the double nearest to `10 ^ 23` is another. -/
def roundedTwice : Float :=
  Float.ofBits 0x44CFC3842BD1F072

theorem writeFloat_roundedTwice : writeFloat roundedTwice = ['3', 'e', '+', '2', '3'] := by
  have hbits : roundedTwice.toBits = 0x44CFC3842BD1F072 := by decide +kernel
  have hfinite : roundedTwice.isFinite = true := by decide +kernel
  have hdigits : (List.range 17).findSome? (fun k =>
      (Decimal.Magnitude.ofBits 0x44CFC3842BD1F072).withDigits? (k + 1)) = some ⟨3, 23⟩ := rfl
  have htrim : Decimal.Scaled.trim ⟨3, 23⟩ = ⟨3, 23⟩ := by
    rw [Decimal.Scaled.trim, dif_neg (by decide)]
  have hshortest : (Decimal.Magnitude.ofBits 0x44CFC3842BD1F072).shortest = ⟨3, 23⟩ := by
    unfold Decimal.Magnitude.shortest
    rw [hdigits]
    exact htrim
  unfold writeFloat
  rw [hfinite, hbits]
  dsimp only
  rw [hshortest]
  rfl

/-- The bits of a token that is a double. -/
def Token.bits? : Token → Option UInt64
  | .scalar (.number (some (.double x))) => some x.toBits
  | _ => none

/-- Not every double is legible. -/
theorem not_legible_roundedTwice : ¬ (JsonNumber.double roundedTwice).Legible := by
  intro h
  obtain ⟨c, cs, hwritten, -, hcut⟩ := exists_cut_of_legible h
  have htext : c :: cs = ['3', 'e', '+', '2', '3'] := hwritten.symm.trans writeFloat_roundedTwice
  cases htext
  have hbits : (cutToken '3' ['e', '+', '2', '3']).bind (fun cut => cut.1.bits?) ≠
      some roundedTwice.toBits := by
    decide +kernel
  rw [hcut] at hbits
  exact hbits rfl

end Json
end SalientGraph
