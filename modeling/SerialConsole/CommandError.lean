/-!
# Command errors

What can go wrong with a command.  Each error has a code of three characters and a wording, and is
shown as both, with a colon between them.
-/

namespace SerialConsole

/-- Why a command was not carried out. -/
inductive CommandError where
  /-- No registered name begins with the typed word. -/
  | unknownCommand
  /-- An argument that should be a number is none, or is no known parameter. -/
  | invalidValue
  /-- An argument is needed and was not given. -/
  | missingArgument
  /-- The command table has no free place. -/
  | tableFull
  /-- No link is attached. -/
  | noLink
  deriving Repr, DecidableEq

namespace CommandError

/-- The code of an error. -/
def code : CommandError → String
  | unknownCommand => "E01"
  | invalidValue => "E02"
  | missingArgument => "E03"
  | tableFull => "E04"
  | noLink => "E05"

/-- The wording of an error. -/
def message : CommandError → String
  | unknownCommand => "unknown command"
  | invalidValue => "invalid value"
  | missingArgument => "missing argument"
  | tableFull => "command table full"
  | noLink => "no link uart"

/-- An error as it is shown. -/
def describe (e : CommandError) : String := e.code ++ ": " ++ e.message

end CommandError

end SerialConsole
