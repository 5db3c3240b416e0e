import SerialConsole.Text.Utf8

/-!
# Words of a line

Words are separated by blanks, that is spaces and tabs.  `splitWord` cuts a line at its first blank
and skips the run of blanks there; `words` lists all words of a line.

    splitWord "set  10 20" = ("set", "10 20")
    words "set  10 20" = ["set", "10", "20"]

A word may stand for a longer name: it abbreviates every name that begins with it.
-/

namespace SerialConsole.Text

/-- A space or a tab. -/
def isBlank (c : Char) : Bool := c == ' ' || c == '\t'

/-- The characters before the first blank. -/
def firstWord (cs : List Char) : List Char := cs.takeWhile (!isBlank ·)

/-- What follows the first run of blanks. -/
def afterWord (cs : List Char) : List Char := (cs.dropWhile (!isBlank ·)).dropWhile isBlank

/-- The line before its first blank, and what follows the run of blanks there. -/
def splitWord (line : String) : String × String :=
  (String.ofList (firstWord line.toList), String.ofList (afterWord line.toList))

/-- The stretches between blanks, empty ones included. -/
def pieces : List Char → List (List Char)
  | [] => [[]]
  | c :: cs =>
    if isBlank c then [] :: pieces cs
    else match pieces cs with
      | [] => [[c]]
      | p :: ps => (c :: p) :: ps

/-- The words of a line, in order. -/
def words (line : String) : List String :=
  ((pieces line.toList).filter (· ≠ [])).map String.ofList

/-- A word abbreviates the names that begin with it; the empty word abbreviates none. -/
def abbreviates (typed name : String) : Bool :=
  typed != "" && (encode typed).isPrefixOf (encode name)

end SerialConsole.Text
