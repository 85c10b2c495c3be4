/-!
The lines of a text. A line ends at a line feed, and a carriage return right before that line feed
belongs to the line's end. What follows the last line feed is a line only if it is not empty, and
keeps a carriage return at its end.
-/

namespace DepNorm.Text

/-- Takes one carriage return off the end. -/
def dropReturn (line : List Char) : List Char :=
  if line.getLast? = some '\r' then line.dropLast else line

def lines (text : List Char) : List (List Char) :=
  let pieces := text.splitOn '\n'
  pieces.dropLast.map dropReturn ++ (pieces.getLast?.filter fun last => !last.isEmpty).toList

example : lines "a\r\n\nb\r".toList = ["a".toList, [], "b\r".toList] := by decide

end DepNorm.Text
