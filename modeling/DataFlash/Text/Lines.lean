import DataFlash.Text.Blank

namespace DataFlash.Text

/-- The lines of a text. Each ends at a line feed; what follows the last line feed is a line
unless it is empty. -/
def lines (text : List Char) : List (List Char) :=
  let pieces := text.splitOn '\n'
  if pieces.getLast? = some [] then pieces.dropLast else pieces

/-- The parts of a line between its commas, each without white space around it. -/
def parts (line : List Char) : List (List Char) :=
  (line.splitOn ',').map trim

end DataFlash.Text
