import SalientGraph.Distinct
import SalientGraph.Text.Alphanumeric
import SalientGraph.Text.LowerCase

/-!
# Search terms

A text is read as the list of its terms: the maximal runs of letters and digits,
in lower case, each listed where it first occurs. `words` finds the runs and
`terms` maps and lists them.
-/

namespace SalientGraph
namespace Text

/-- The maximal runs of characters that pass `keep`, of which `run` is being read, the last
character first. -/
def runsFrom (keep : Char → Bool) (run : List Char) : List Char → List (List Char)
  | [] => if run.isEmpty then [] else [run.reverse]
  | c :: cs =>
    if keep c then runsFrom keep (c :: run) cs
    else if run.isEmpty then runsFrom keep [] cs
    else run.reverse :: runsFrom keep [] cs

/-- The maximal runs of letters and digits of a text, in order. -/
def words (s : String) : List (List Char) :=
  runsFrom isAlphanumeric [] s.toList

/-- The terms of a text: its words in lower case, without repetition, in order of first mention. -/
def terms (s : String) : List String :=
  distinct ((words s).map fun word => String.ofList (lowerCase word))

theorem nodup_terms (s : String) : (terms s).Nodup :=
  nodup_distinct _

end Text
end SalientGraph
