/-!
# Columns

A cell of a column is a text widened by spaces.  A text that is as long as the column is wide, or
longer, is not changed: nothing is ever cut.
-/

namespace SerialConsole.Text

/-- The text and then spaces, up to the width. -/
def alignLeft (width : Nat) (s : String) : String :=
  String.ofList (s.toList ++ List.replicate (width - s.toList.length) ' ')

/-- Spaces and then the text, up to the width. -/
def alignRight (width : Nat) (s : String) : String :=
  String.ofList (List.replicate (width - s.toList.length) ' ' ++ s.toList)

end SerialConsole.Text
