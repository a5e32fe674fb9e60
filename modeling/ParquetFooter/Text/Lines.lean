/-!
# Lines of text

A printed text is a list of lines, each of which ends in a line feed. `toList_unlines` gives the
characters of such a text.
-/

namespace ParquetFooter

/-- A text that repeats one character. -/
def repeated (letter : Char) (count : Nat) : String := String.ofList (List.replicate count letter)

/-- A line with blanks in front. -/
def indented (width : Nat) (line : String) : String := repeated ' ' width ++ line

/-- The text of some lines. Every line, the last one too, ends in a line feed. -/
def unlines (lines : List String) : String := String.join (lines.map (· ++ "\n"))

/-- The characters of a text are those of its lines, with a line feed behind each. -/
theorem toList_unlines (lines : List String) :
    (unlines lines).toList = lines.flatMap fun line => line.toList ++ ['\n'] := by
  simp [unlines, String.toList_join, List.flatMap_map]

end ParquetFooter
