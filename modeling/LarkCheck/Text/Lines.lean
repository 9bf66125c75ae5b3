/-!
# Texts of several lines

A text that stands inside a report keeps its lines, but loses the spaces at their
ends, and something leads from each line to the next.
-/

namespace LarkCheck.Text

/-- A line without the spaces at its end. -/
def trimmedLine (line : List Char) : List Char :=
  line.foldr (fun c rest => if c = ' ' && rest.isEmpty then [] else c :: rest) []

/-- The lines of a text without the spaces at their ends, with `lead` before each but the first. -/
def hanging (lead text : String) : String :=
  ("\n" ++ lead).intercalate ((text.splitOn "\n").map fun line =>
    String.ofList (trimmedLine line.toList))

end LarkCheck.Text
